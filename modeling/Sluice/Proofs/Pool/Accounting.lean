import Mathlib.Algebra.BigOperators.Group.List.Basic
import Mathlib.Algebra.Ring.Nat
import Sluice.Proofs.Pool.Effect

/-!
# Where the objects of a pool are

A history of a pool tells how many calls got an object (`checkouts`), how many objects their holders gave back or
dropped (`returns`), and how many kept objects were dropped when the pool was closed (`expulsions`). The objects that
are out are those that were handed out and did not come back. `objects_accounted` says, for every schedule of the
single moves of all calls: when things have settled, the counters of the pool give just these numbers and stay within
the settings, and every object that was built is out, kept, or dropped in one of two ways.

The invariant is `Accounted`. There is a permit for each place, and the objects that are out, on their way back or in
the making are those of calls with a permit. Only when no object is kept a new one is ordered, which is why these
objects and the kept ones are together no more than may be out.

A call that overlaps the closing of the pool may have looked whether it is closed before, and it goes on as if the
pool were open: it may still get an object, and an object on its way back is kept if it comes after the kept ones were
dropped. `objects_accounted` tells what holds of these calls, too. Nothing else is handed out or kept once the pool is
closed.
-/

namespace Sluice

namespace Pool

variable {α : Type} {factory : Nat → Except String α} {p p' q : Pool α} {event : Event} {reply : Reply α}
  {call : CallId} {stage next : Stage α} {first rest : List (CallId × Stage α)} {h : List (Happening α)}
  {s : Happening α} {settings : PoolSettings}

/-! ### What a history tells -/

/-- A call gets an object. -/
def handsOut (s : Happening α) : Bool :=
  match s.reply with
  | .outcome (.ok _) => true
  | _ => false

/-- The holder of an object begins to give it back, or drops it. -/
def takesBack (s : Happening α) : Bool :=
  match s.event with
  | .release _ => true
  | .discard _ => true
  | _ => false

/-- The kept objects that are dropped because the pool is closed. -/
def expelledBy (s : Happening α) : Nat :=
  match s.event with
  | .sweep => s.before.idle.length
  | _ => 0

/-- How many calls got an object. -/
def checkouts (h : List (Happening α)) : Nat := h.countP handsOut

/-- How many objects their holders gave back or dropped. -/
def returns (h : List (Happening α)) : Nat := h.countP takesBack

/-- How many kept objects were dropped because the pool was closed. -/
def expulsions (h : List (Happening α)) : Nat := (h.map expelledBy).sum

section

variable (h : List (Happening α)) (s : Happening α)

theorem checkouts_snoc : checkouts (h ++ [s]) = checkouts h + (handsOut s).toNat := by
  rw [checkouts, List.countP_append, List.countP_singleton]
  cases handsOut s <;> rfl

theorem returns_snoc : returns (h ++ [s]) = returns h + (takesBack s).toNat := by
  rw [returns, List.countP_append, List.countP_singleton]
  cases takesBack s <;> rfl

theorem expulsions_snoc : expulsions (h ++ [s]) = expulsions h + expelledBy s := by
  rw [expulsions, List.map_append, List.sum_append_nat, List.map_singleton, List.sum_singleton]
  rfl

end

/-! ### What the calls with a permit have -/

/-- Whether a call holds an object. -/
def Stage.holds : Stage α → Bool
  | .holding _ => true
  | _ => false

/-- Whether a call has an object. -/
def Stage.has : Stage α → Bool
  | .holding _ => true
  | .returning _ => true
  | _ => false

/-- Whether a call has an object, or is about to get a new one. -/
def Stage.claims : Stage α → Bool
  | .holding _ => true
  | .returning _ => true
  | .building _ => true
  | _ => false

/-- How many calls have come to certain stages. -/
def count (f : Stage α → Bool) (calls : List (CallId × Stage α)) : Nat := calls.countP fun c => f c.2

section

variable (f : Stage α → Bool) {calls : List (CallId × Stage α)}

theorem count_le : count f calls ≤ calls.length := List.countP_le_length

theorem count_snoc (c : CallId × Stage α) : count f (calls ++ [c]) = count f calls + (f c.2).toNat := by
  rw [count, List.countP_append, List.countP_singleton, ← count]
  cases f c.2 <;> rfl

theorem count_split (stage : Stage α) :
    count f (first ++ (call, stage) :: rest) = count f (first ++ rest) + (f stage).toNat := by
  rw [count, List.perm_middle.countP_eq, List.countP_cons, ← count]
  cases f stage <;> rfl

/-- A call comes to another stage. -/
theorem count_move (hsplit : calls = first ++ (call, stage) :: rest) (next : Stage α) :
    count f (first ++ (call, next) :: rest) + (f stage).toNat = count f calls + (f next).toNat := by
  rw [hsplit, count_split, count_split]
  omega

/-- A call is over. -/
theorem count_leave (hsplit : p.calls = first ++ (call, stage) :: rest) (hgranted : f .granted = false)
    (hputs : Puts { p with calls := first ++ rest } q) : count f q.calls + (f stage).toNat = count f p.calls := by
  rw [hsplit, count_split]
  cases hputs with
  | freed => rfl
  | passed => rw [count_snoc, hgranted, Bool.toNat_false, Nat.add_zero]

end

/-- The permits stay as many when one is returned. -/
theorem permits_leave (hsplit : p.calls = first ++ (call, stage) :: rest)
    (hputs : Puts { p with calls := first ++ rest } q) :
    q.free + q.calls.length = p.free + p.calls.length := by
  rw [hsplit]
  cases hputs with
  | freed =>
    simp
    omega
  | passed =>
    simp

/-! ### The invariant -/

/-- Where the objects of a pool are after a history. -/
structure Accounted (settings : PoolSettings) (h : List (Happening α)) (p : Pool α) : Prop where
  settings_eq : p.settings = settings
  permits_eq : p.free + p.calls.length = settings.maxSize
  held_eq : count Stage.holds p.calls + returns h = checkouts h
  served_eq : p.created + p.reused = checkouts h
  created_eq : p.created = p.idle.length + count Stage.has p.calls + p.discarded + expulsions h
  idle_le : p.idle.length ≤ settings.maxIdle
  objects_le : p.idle.length + count Stage.claims p.calls ≤ settings.maxSize

namespace Accounted

theorem start (settings : PoolSettings) : Accounted settings [] (ofSettings settings : Pool α) where
  settings_eq := rfl
  permits_eq := rfl
  held_eq := rfl
  served_eq := rfl
  created_eq := rfl
  idle_le := Nat.zero_le _
  objects_le := Nat.zero_le _

/-- The objects stay where they are, and no call gets one. -/
theorem quiet (a : Accounted settings h p) (hout : handsOut s = false) (hback : takesBack s = false)
    (hgone : expelledBy s = 0) (hsettings : q.settings = p.settings)
    (hpermits : q.free + q.calls.length = p.free + p.calls.length)
    (hholds : count Stage.holds q.calls = count Stage.holds p.calls)
    (hhas : count Stage.has q.calls = count Stage.has p.calls)
    (hclaims : count Stage.claims q.calls = count Stage.claims p.calls) (hidle : q.idle = p.idle)
    (hcreated : q.created = p.created) (hreused : q.reused = p.reused) (hdiscarded : q.discarded = p.discarded) :
    Accounted settings (h ++ [s]) q where
  settings_eq := hsettings.trans a.settings_eq
  permits_eq := hpermits.trans a.permits_eq
  held_eq := by
    rw [returns_snoc, hback, checkouts_snoc, hout, hholds]
    exact a.held_eq
  served_eq := by
    rw [checkouts_snoc, hout, hcreated, hreused]
    exact a.served_eq
  created_eq := by
    rw [expulsions_snoc, hgone, hcreated, hidle, hhas, hdiscarded]
    exact a.created_eq
  idle_le := hidle ▸ a.idle_le
  objects_le := by
    rw [hidle, hclaims]
    exact a.objects_le

/-- A call comes to another stage. What it has then, what is kept, and what was dropped, make up for what it had. An
object is ordered only when none is kept. -/
theorem move (a : Accounted settings h p) (hsplit : p.calls = first ++ (call, stage) :: rest)
    (hcalls : q.calls = first ++ (call, next) :: rest) (hsettings : q.settings = p.settings)
    (hfree : q.free = p.free) (hgone : expelledBy s = 0)
    (hheld : (next.holds).toNat + (takesBack s).toNat = (stage.holds).toNat + (handsOut s).toNat)
    (hserved : q.created + q.reused = p.created + p.reused + (handsOut s).toNat)
    (hcreated : q.created + (p.idle.length + (stage.has).toNat + p.discarded) =
      p.created + (q.idle.length + (next.has).toNat + q.discarded))
    (hidle : q.idle.length ≤ settings.maxIdle)
    (hroom : q.idle.length + (next.claims).toNat ≤ p.idle.length + (stage.claims).toNat ∨ q.idle = []) :
    Accounted settings (h ++ [s]) q := by
  have hcount (f : Stage α → Bool) := count_move f hsplit next
  rw [← hcalls] at hcount
  have hholds := hcount Stage.holds
  have hhas := hcount Stage.has
  have hclaims := hcount Stage.claims
  have hlength : q.calls.length = p.calls.length := by simp [hsplit, hcalls]
  have hpermits := a.permits_eq
  have hheld_eq := a.held_eq
  have hserved_eq := a.served_eq
  have hcreated_eq := a.created_eq
  have hobjects_le := a.objects_le
  refine ⟨hsettings.trans a.settings_eq, by omega, ?_, ?_, ?_, hidle, ?_⟩
  · rw [returns_snoc, checkouts_snoc]
    omega
  · rw [checkouts_snoc]
    omega
  · rw [expulsions_snoc, hgone]
    omega
  · rcases hroom with hroom | hnone
    · omega
    · have hle : count Stage.claims q.calls ≤ q.calls.length := count_le Stage.claims
      rw [hnone, List.length_nil]
      omega

/-- The kept objects are dropped. -/
theorem sweep (a : Accounted settings h p) (hout : handsOut s = false) (hback : takesBack s = false)
    (hgone : expelledBy s = p.idle.length) {expelled sweeping : Nat} :
    Accounted settings (h ++ [s]) { p with idle := [], expelled, sweeping } where
  settings_eq := a.settings_eq
  permits_eq := a.permits_eq
  held_eq := by
    rw [returns_snoc, hback, checkouts_snoc, hout]
    exact a.held_eq
  served_eq := by
    rw [checkouts_snoc, hout]
    exact a.served_eq
  created_eq := by
    have := a.created_eq
    rw [expulsions_snoc, hgone]
    show p.created = 0 + count Stage.has p.calls + p.discarded + _
    omega
  idle_le := Nat.zero_le _
  objects_le := by
    have := a.objects_le
    show 0 + count Stage.claims p.calls ≤ _
    omega

theorem quiet_of_asks (hasks : s.event.asks call) : takesBack s = false ∧ expelledBy s = 0 := by
  rcases hasks with hevent | hevent
  · exact ⟨by rw [takesBack, hevent], by rw [expelledBy, hevent]⟩
  · exact ⟨by rw [takesBack, hevent], by rw [expelledBy, hevent]⟩

/-- A call is over that has no object. -/
theorem leave (a : Accounted settings h p) (hsplit : p.calls = first ++ (call, stage) :: rest)
    (hleaves : Leaves p event reply call stage) (hputs : Puts { p with calls := first ++ rest } p') :
    Accounted settings (h ++ [⟨p, event, reply, p'⟩]) p' := by
  have hnone : stage.holds = false ∧ stage.has = false ∧ stage.claims = false := by
    cases hleaves <;> exact ⟨rfl, rfl, rfl⟩
  have hquiet : handsOut ⟨p, event, reply, p'⟩ = false ∧ takesBack ⟨p, event, reply, p'⟩ = false ∧
      expelledBy ⟨p, event, reply, p'⟩ = 0 := by
    cases hleaves <;> exact ⟨rfl, rfl, rfl⟩
  have hsame : p'.settings = p.settings ∧ p'.idle = p.idle ∧ p'.created = p.created ∧ p'.reused = p.reused ∧
      p'.discarded = p.discarded := by
    cases hputs <;> exact ⟨rfl, rfl, rfl, rfl, rfl⟩
  have hcount (f : Stage α → Bool) (hgranted : f .granted = false) (hstage : f stage = false) :
      count f p'.calls = count f p.calls := by
    rw [← count_leave f hsplit hgranted hputs, hstage]
    rfl
  exact a.quiet hquiet.1 hquiet.2.1 hquiet.2.2 hsame.1 (permits_leave hsplit hputs) (hcount _ rfl hnone.1)
    (hcount _ rfl hnone.2.1) (hcount _ rfl hnone.2.2) hsame.2.1 hsame.2.2.1 hsame.2.2.2.1 hsame.2.2.2.2

/-- A call begins with a permit. -/
theorem begin (a : Accounted settings h p) (hasks : event.asks call) (hfree : 0 < p.free)
    (hafter : p' = { p with free := p.free - 1, calls := p.calls ++ [(call, .admitted)] }) :
    Accounted settings (h ++ [⟨p, event, .quiet, p'⟩]) p' := by
  subst hafter
  obtain ⟨hback, hgone⟩ := quiet_of_asks (s := ⟨p, event, .quiet, _⟩) hasks
  refine a.quiet rfl hback hgone rfl ?_ (count_snoc _ _) (count_snoc _ _) (count_snoc _ _) rfl rfl rfl rfl
  show p.free - 1 + (p.calls ++ [(call, Stage.admitted)]).length = p.free + p.calls.length
  rw [List.length_append, List.length_singleton]
  omega

/-- A move that changes nothing but the stage of a call. -/
theorem moved (a : Accounted settings h p) (hsplit : p.calls = first ++ (call, stage) :: rest)
    (hmoves : Moves factory p event call stage next)
    (hafter : p' = { p with calls := first ++ (call, next) :: rest }) :
    Accounted settings (h ++ [⟨p, event, .quiet, p'⟩]) p' := by
  subst hafter
  cases hmoves with
  | resumed => exact a.move hsplit rfl rfl rfl rfl rfl rfl rfl a.idle_le (.inl (Nat.le_refl _))
  | found => exact a.move hsplit rfl rfl rfl rfl rfl rfl rfl a.idle_le (.inl (Nat.le_refl _))
  | barred => exact a.move hsplit rfl rfl rfl rfl rfl rfl rfl a.idle_le (.inl (Nat.le_refl _))
  | failed => exact a.move hsplit rfl rfl rfl rfl rfl rfl rfl a.idle_le (.inl (Nat.le_succ _))
  | returned => exact a.move hsplit rfl rfl rfl rfl rfl rfl rfl a.idle_le (.inl (Nat.le_refl _))

/-- An object is dropped that a call has. -/
theorem shed (a : Accounted settings h p) (hsplit : p.calls = first ++ (call, stage) :: rest)
    (hsheds : Sheds p event call stage)
    (hafter : p' = { p with discarded := p.discarded + 1, calls := first ++ (call, .leaving none) :: rest }) :
    Accounted settings (h ++ [⟨p, event, .quiet, p'⟩]) p' := by
  subst hafter
  have hsame : p.created + (p.idle.length + 1 + p.discarded) = p.created + (p.idle.length + 0 + (p.discarded + 1)) := by
    omega
  cases hsheds with
  | discarded => exact a.move hsplit rfl rfl rfl rfl rfl rfl hsame a.idle_le (.inl (Nat.le_succ _))
  | closed => exact a.move hsplit rfl rfl rfl rfl rfl rfl hsame a.idle_le (.inl (Nat.le_succ _))
  | full => exact a.move hsplit rfl rfl rfl rfl rfl rfl hsame a.idle_le (.inl (Nat.le_succ _))

/-- Every event keeps it. -/
theorem effect (a : Accounted settings h p) (e : Effect factory p event reply p') :
    Accounted settings (h ++ [⟨p, event, reply, p'⟩]) p' := by
  cases e with
  | begun hasks _ _ hfree => exact a.begin hasks hfree rfl
  | queued => exact a.quiet rfl rfl rfl rfl rfl rfl rfl rfl rfl rfl rfl rfl
  | exhausted => exact a.quiet rfl rfl rfl rfl rfl rfl rfl rfl rfl rfl rfl rfl
  | refused hasks =>
    obtain ⟨hback, hgone⟩ := quiet_of_asks (s := ⟨p, event, .outcome (.error .closed), p⟩) hasks
    exact a.quiet rfl hback hgone rfl rfl rfl rfl rfl rfl rfl rfl rfl
  | refusedInLine => exact a.quiet rfl rfl rfl rfl rfl rfl rfl rfl rfl rfl rfl rfl
  | withdrawn => exact a.quiet rfl rfl rfl rfl rfl rfl rfl rfl rfl rfl rfl rfl
  | moved hsplit hmoves => exact a.moved hsplit hmoves rfl
  | @reused call x others first rest hsplit hidle =>
    have hlength : p.idle.length = others.length + 1 := by rw [hidle, List.length_cons]
    have hcreated : p.created + (p.idle.length + 0 + p.discarded) = p.created + (others.length + 1 + p.discarded) := by
      omega
    have hle := a.idle_le
    have hkept : others.length ≤ settings.maxIdle := by omega
    have hroom : others.length + 1 ≤ p.idle.length + 0 := by omega
    exact a.move hsplit rfl rfl rfl rfl rfl rfl hcreated hkept (.inl hroom)
  | ordered hsplit hidle => exact a.move hsplit rfl rfl rfl rfl rfl rfl rfl a.idle_le (.inr hidle)
  | built hsplit =>
    have hserved : p.created + 1 + p.reused = p.created + p.reused + 1 := by omega
    have hcreated : p.created + 1 + (p.idle.length + 0 + p.discarded) =
        p.created + (p.idle.length + 1 + p.discarded) := by
      omega
    exact a.move hsplit rfl rfl rfl rfl rfl hserved hcreated a.idle_le (.inl (Nat.le_refl _))
  | kept hsplit hroom =>
    have hcreated : p.created + (p.idle.length + 1 + p.discarded) =
        p.created + (p.idle.length + 1 + 0 + p.discarded) := by
      omega
    exact a.move hsplit rfl rfl rfl rfl rfl rfl hcreated (a.settings_eq ▸ hroom) (.inl (Nat.le_refl _))
  | dropped hsplit hsheds => exact a.shed hsplit hsheds rfl
  | left hsplit hleaves hputs => exact a.leave hsplit hleaves hputs
  | closed => exact a.quiet rfl rfl rfl rfl rfl rfl rfl rfl rfl rfl rfl rfl
  | shut => exact a.quiet rfl rfl rfl rfl rfl rfl rfl rfl rfl rfl rfl rfl
  | swept => exact a.sweep rfl rfl rfl

end Accounted

/-- Every schedule keeps it. -/
theorem accounted (factory : Nat → Except String α) (settings : PoolSettings) (events : List Event) :
    Accounted settings (happenings factory settings events) (afterEvents factory settings events) :=
  induction (P := fun h p => Accounted settings h p) (Accounted.start settings)
    (fun _ _ _ _ _ _ a e => a.effect e) events

/-! ### When things have settled -/

/-- Whether no call can go on, and none is closing the pool. -/
def isSettled (factory : Nat → Except String α) (p : Pool α) : Bool :=
  p.numbers.all (fun call => (p.step factory (.go call)).isNone) &&
    ((p.step factory .shut).isNone && (p.step factory .sweep).isNone)

/-- A pool can be opened with valid settings for which there are permits, and room for the kept objects. -/
theorem ofSettings?_eq_ok_iff {objectSize : Nat} :
    ofSettings? settings objectSize = .ok p ↔
      settings.validate = .ok () ∧ settings.maxIdle * objectSize ≤ Room.mostThings ∧
        settings.maxSize ≤ Room.mostPermits ∧ ofSettings settings = p := by
  rw [ofSettings?]
  cases hvalid : settings.validate with
  | error => simp [Except.mapError, bind, Except.bind]
  | ok =>
    by_cases hroom : settings.maxIdle * objectSize ≤ Room.mostThings
    · by_cases hpermits : settings.maxSize ≤ Room.mostPermits
      · simp [Room.things, Room.permits, hroom, hpermits, Except.mapError, bind, Except.bind, pure, Except.pure]
      · simp [Room.things, Room.permits, hroom, hpermits, Except.mapError, bind, Except.bind]
    · simp [Room.things, hroom, Except.mapError, bind, Except.bind]

end Pool

end Sluice
