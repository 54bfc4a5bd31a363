import Mathlib.Logic.Relation
import Sluice.Proofs.Worker.Passage

/-!
# How a processor comes to its end

A processor follows a plain event if its handler does not ask to stop and its reader holds nothing back at its
end. `Tidy` is what such a processor keeps. Its channel is open and holds no more than its capacity, and its
reader holds one message at most, so no more than the capacity and one are under way. Its handler comes to its
end only after the reader has ended and nothing is under way any more. And a task whose end has been waited for
has ended, so both have when a call that waits for the end returns (`Tidy.ended_of_joined`).

`Tidy.effect` is the step, and `Tidy.reaches` the run.
-/

namespace Sluice

namespace Channel

variable {α : Type} {c c' : Channel α} {message : α} {capacity : Nat}

/-- An open channel that holds no more than its capacity. -/
structure Fits (capacity : Nat) (c : Channel α) : Prop where
  unclosed : c.closed = false
  capacity_eq : c.capacity = capacity
  length_le : c.messages.length ≤ capacity

theorem Fits.offer (f : c.Fits capacity) (h : c.offer message = (.accepted, c')) :
    c'.Fits capacity := by
  obtain ⟨hopen, hroom, hcapacity⟩ := room_of_offer h
  have hmessages := messages_of_offer h
  have hbefore := f.capacity_eq
  refine ⟨(closed_of_offer h).trans hopen, hcapacity.trans hbefore, ?_⟩
  rw [hmessages, List.length_append, List.length_singleton]
  omega

theorem Fits.receive (f : c.Fits capacity) (h : c.receive = some (message, c')) :
    c'.Fits capacity := by
  have hmessages := congrArg List.length (messages_of_receive h)
  have hlength := f.length_le
  rw [List.length_cons] at hmessages
  exact ⟨(closed_of_receive h).trans f.unclosed, (capacity_of_receive h).trans f.capacity_eq, by omega⟩

end Channel

namespace Processor

variable {M : Type} {p p' : Processor M} {event : Event M} {reply : Reply} {capacity : Nat}

/-! ### The last phases of the handler -/

/-- The handler has no more messages to wait for. -/
def HandlerPhase.isLast : HandlerPhase M → Prop
  | .finishing => True
  | .ended => True
  | _ => False

theorem HandlerPhase.isLast_iff {phase : HandlerPhase M} :
    phase.isLast ↔ phase = .finishing ∨ phase = .ended := by
  cases phase with
  | finishing => exact iff_of_true trivial (.inl rfl)
  | ended => exact iff_of_true trivial (.inr rfl)
  | receiving => exact iff_of_false id (fun h => h.elim nofun nofun)
  | handling m => exact iff_of_false id (fun h => h.elim nofun nofun)

theorem HandlerPhase.isLast_of_ended {phase : HandlerPhase M} (h : phase = .ended) : phase.isLast :=
  isLast_iff.mpr (.inr h)

/-- A processor that follows plain events only. -/
structure Tidy (capacity : Nat) (p : Processor M) : Prop where
  fits : p.channel.Fits capacity
  held_le : p.reader.held.length ≤ 1
  /-- The handler comes to its end last, when everything has been received. -/
  drained : p.handler.isLast → p.reader = .ended ∧ p.underway = []
  /-- A task whose end has been waited for has ended. -/
  awaited : ∀ w, w ∉ p.unjoined → p.hasEnded w = true

namespace Tidy

theorem ofSettings (s : ProcessorSettings) : Tidy s.capacity (Processor.ofSettings s : Processor M) where
  fits := ⟨rfl, rfl, Nat.zero_le _⟩
  held_le := Nat.zero_le _
  drained h := h.elim
  awaited w hw := by
    cases w with
    | reader => exact absurd (List.mem_cons_of_mem _ List.mem_cons_self) hw
    | handler => exact absurd List.mem_cons_self hw

/-- No more than the capacity and one are under way. -/
theorem length_underway_le (t : Tidy capacity p) : p.underway.length ≤ capacity + 1 := by
  have hlength := t.fits.length_le
  have hheld := t.held_le
  rw [underway, List.length_append]
  omega

theorem underway_eq_nil (t : Tidy capacity p) (hlast : p.handler.isLast) : p.underway = [] :=
  (t.drained hlast).2

/-- When a call that waits for the end returns, both tasks have ended. -/
theorem ended_of_joined (t : Tidy capacity p) {call : CallId} {stats : ProcessorStats}
    (hstep : p.step .advanceLine = some (.joined call stats, p')) :
    p.reader = .ended ∧ p.handler = .ended ∧ p'.reader = .ended ∧ p'.handler = .ended := by
  cases step_effect hstep with
  | @joined _ rest hline hunjoined =>
    have hnone : ∀ w, w ∉ p.unjoined := by
      rw [hunjoined]
      exact fun w => List.not_mem_nil
    have hreader := (hasEnded_iff.mp (t.awaited .reader (hnone _))).1 rfl
    have hhandler := (hasEnded_iff.mp (t.awaited .handler (hnone _))).2 rfl
    rcases ({ p with line := rest } : Processor M).stopIfForsaken_eq with h | h
    · rw [h]
      exact ⟨hreader, hhandler, hreader, hhandler⟩
    · rw [h]
      exact ⟨hreader, hhandler, hreader, hhandler⟩

/-! ### One event -/

/-- Neither the tasks nor the channel change. -/
theorem of_same (t : Tidy capacity p) (hchannel : p'.channel = p.channel) (hreader : p'.reader = p.reader)
    (hhandler : p'.handler = p.handler) (hunjoined : p'.unjoined = p.unjoined) : Tidy capacity p' where
  fits := hchannel ▸ t.fits
  held_le := hreader ▸ t.held_le
  drained hlast := by
    rw [underway, hchannel, hreader]
    exact t.drained (hhandler ▸ hlast)
  awaited w hw := by
    rw [hunjoined] at hw
    have hended := t.awaited w hw
    rw [hasEnded_iff] at hended ⊢
    rw [hreader, hhandler]
    exact hended

theorem stopIfForsaken (t : Tidy capacity p') : Tidy capacity p'.stopIfForsaken := by
  rcases p'.stopIfForsaken_eq with h | h
  · exact h.symm ▸ t
  · rw [h]
    exact t.of_same rfl rfl rfl rfl

/-- A reader that had not ended does something. -/
theorem readerMoves (t : Tidy capacity p) (hreader : p.reader ≠ .ended) (hfits : p'.channel.Fits capacity)
    (hheld : p'.reader.held.length ≤ 1) (hhandler : p'.handler = p.handler)
    (hunjoined : p'.unjoined = p.unjoined) : Tidy capacity p' where
  fits := hfits
  held_le := hheld
  drained hlast := absurd (t.drained (hhandler ▸ hlast)).1 hreader
  awaited w hw := by
    rw [hunjoined] at hw
    have hended := hasEnded_iff.mp (t.awaited w hw)
    refine hasEnded_iff.mpr ⟨fun hw => absurd (hended.1 hw) hreader, fun hw => ?_⟩
    rw [hhandler]
    exact hended.2 hw

/-- A handler that had not ended does something. -/
theorem handlerMoves (t : Tidy capacity p) (hhandler : p.handler ≠ .ended)
    (hfits : p'.channel.Fits capacity) (hreader : p'.reader = p.reader)
    (hunjoined : p'.unjoined = p.unjoined)
    (hdrained : p'.handler.isLast → p'.reader = .ended ∧ p'.underway = []) : Tidy capacity p' where
  fits := hfits
  held_le := hreader ▸ t.held_le
  drained := hdrained
  awaited w hw := by
    rw [hunjoined] at hw
    have hended := hasEnded_iff.mp (t.awaited w hw)
    refine hasEnded_iff.mpr ⟨fun hw => ?_, fun hw => absurd (hended.2 hw) hhandler⟩
    rw [hreader]
    exact hended.1 hw

theorem sendRead (t : Tidy capacity p) (hreading : p.reader = .reading) (m : M) :
    Tidy capacity (p.sendRead m) := by
  have hreader : p.reader ≠ .ended := by simp [hreading]
  rw [Processor.sendRead]
  rcases hoffer : p.channel.offer m with ⟨answer, channel⟩
  cases answer with
  | accepted => exact t.readerMoves hreader (t.fits.offer hoffer) (Nat.zero_le _) rfl rfl
  | full => exact t.readerMoves hreader t.fits (Nat.le_refl 1) rfl rfl
  | closed => exact absurd hoffer (Channel.open_of_offer t.fits.unclosed)

/-- The reader goes on with the one message that it holds. -/
theorem forward (t : Tidy capacity p) {m : M} {rest : List M} {channel : Channel M}
    (hforwarding : p.reader = .forwarding m rest) (hoffer : p.channel.offer m = (.accepted, channel)) :
    Tidy capacity (({ p with channel } : Processor M).forward rest) := by
  have hrest : rest = [] := by
    have hheld := t.held_le
    rw [hforwarding] at hheld
    exact List.length_eq_zero_iff.mp (Nat.le_zero.mp (Nat.le_of_succ_le_succ hheld))
  rw [hrest]
  exact t.readerMoves (by simp [hforwarding]) (t.fits.offer hoffer) (Nat.zero_le _) rfl rfl

end Tidy

/-- Whether the handler does not ask to stop, and the reader holds nothing back at its end. -/
def Event.isPlain : Event M → Bool
  | .handleReturns .stop => false
  | .takePending (_ :: _) => false
  | _ => true

/-- A processor stays tidy in a plain event. -/
theorem Tidy.effect (t : Tidy capacity p) (hplain : event.isPlain = true) (e : Effect p event reply p') :
    Tidy capacity p' := by
  cases e with
  | ignored => exact t
  | joined => exact stopIfForsaken (t.of_same rfl rfl rfl rfl)
  | @awaited _ _ worker _ _ hunjoined hended =>
    refine ⟨t.fits, t.held_le, t.drained, fun w hw => ?_⟩
    -- The task in front has ended, and the others are those that were not waited for before.
    by_cases hsame : w = worker
    · exact hsame.symm ▸ hended
    · refine t.awaited w ?_
      rw [hunjoined]
      exact List.not_mem_cons_of_ne_of_not_mem hsame hw
  | cancelled => exact stopIfForsaken (t.of_same rfl rfl rfl rfl)
  | released => exact stopIfForsaken (t.of_same rfl rfl rfl rfl)
  | begun hlooking => exact t.readerMoves (by simp [hlooking]) t.fits (Nat.zero_le _) rfl rfl
  | held hlooking => exact t.readerMoves (by simp [hlooking]) t.fits (Nat.zero_le _) rfl rfl
  | left hlooking => exact t.readerMoves (by simp [hlooking]) t.fits (Nat.zero_le _) rfl rfl
  | unpaused hpaused => exact t.readerMoves (by simp [hpaused]) t.fits (Nat.zero_le _) rfl rfl
  | read hreading => exact t.sendRead hreading _
  | exhausted hreading => exact t.readerMoves (by simp [hreading]) t.fits (Nat.zero_le _) rfl rfl
  | readCancelled hreading => exact t.readerMoves (by simp [hreading]) t.fits (Nat.zero_le _) rfl rfl
  | sent hsending hoffer => exact t.readerMoves (by simp [hsending]) (t.fits.offer hoffer) (Nat.zero_le _) rfl rfl
  | refused _ hoffer => exact absurd hoffer (Channel.open_of_offer t.fits.unclosed)
  | forwarded hforwarding hoffer => exact t.forward hforwarding hoffer
  | forwardRefused _ hoffer => exact absurd hoffer (Channel.open_of_offer t.fits.unclosed)
  | @gathered ms hleaving =>
    cases ms with
    | nil => exact t.readerMoves (by simp [hleaving]) t.fits (Nat.zero_le _) rfl rfl
    | cons => cases hplain
  | readerFinished hfinishing => exact t.readerMoves (by simp [hfinishing]) t.fits (Nat.zero_le _) rfl rfl
  | received hreceiving hreceive =>
    exact t.handlerMoves (by simp [hreceiving]) (t.fits.receive hreceive) rfl rfl fun hlast => hlast.elim
  | drained hreceiving hnone hended =>
    have hnil := Processor.underway_eq_nil (readerEnded_iff.mpr hended) hnone
    exact t.handlerMoves (by simp [hreceiving]) t.fits rfl rfl fun _ => ⟨hended, hnil⟩
  | handled hhandling => exact t.handlerMoves (by simp [hhandling]) t.fits rfl rfl fun hlast => hlast.elim
  | stopped => cases hplain
  | handlerFinished hfinishing =>
    exact t.handlerMoves (by simp [hfinishing]) t.fits rfl rfl fun _ =>
      t.drained (HandlerPhase.isLast_iff.mpr (.inl hfinishing))
  | _ => exact t.of_same rfl rfl rfl rfl

/-! ### Any number of events -/

/-- A plain event leads from the one processor to the other. -/
def Follows (p p' : Processor M) : Prop :=
  ∃ event reply, event.isPlain = true ∧ p.step event = some (reply, p')

/-- Plain events lead from the one processor to the other. -/
def Reaches : Processor M → Processor M → Prop := Relation.ReflTransGen Follows

theorem Reaches.refl (p : Processor M) : Reaches p p := Relation.ReflTransGen.refl

theorem Reaches.of_step (hplain : event.isPlain = true) (hstep : p.step event = some (reply, p')) :
    Reaches p p' :=
  Relation.ReflTransGen.single ⟨event, reply, hplain, hstep⟩

theorem Reaches.trans {p'' : Processor M} (h : Reaches p p') (h' : Reaches p' p'') : Reaches p p'' :=
  Relation.ReflTransGen.trans h h'

theorem Tidy.reaches (t : Tidy capacity p) (h : Reaches p p') : Tidy capacity p' := by
  induction h with
  | refl => exact t
  | tail _ hfollows ih =>
    obtain ⟨event, reply, hplain, hstep⟩ := hfollows
    exact ih.effect hplain (step_effect hstep)

/-! ### A handler at its end -/

theorem handler_stopIfForsaken (p : Processor M) : p.stopIfForsaken.handler = p.handler := by
  rcases p.stopIfForsaken_eq with h | h
  · rw [h]
  · rw [h]

theorem handler_sendRead (p : Processor M) (m : M) : (p.sendRead m).handler = p.handler := by
  rw [sendRead]
  split <;> rfl

theorem handler_forward (p : Processor M) (ms : List M) : (p.forward ms).handler = p.handler := by
  induction ms generalizing p with
  | nil => rfl
  | cons m rest ih =>
    rw [forward]
    split
    · exact ih _
    · rfl
    · exact ih _

/-- A handler that is at its end stays there. -/
theorem Effect.isLast (hlast : p.handler.isLast) (e : Effect p event reply p') : p'.handler.isLast := by
  cases e with
  | joined =>
    rw [handler_stopIfForsaken]
    exact hlast
  | cancelled =>
    rw [handler_stopIfForsaken]
    exact hlast
  | released =>
    rw [handler_stopIfForsaken]
    exact hlast
  | read =>
    rw [handler_sendRead]
    exact hlast
  | forwarded =>
    rw [handler_forward]
    exact hlast
  | forwardRefused =>
    rw [handler_forward]
    exact hlast
  | gathered =>
    rw [handler_forward]
    exact hlast
  | received hreceiving =>
    rw [hreceiving] at hlast
    exact hlast.elim
  | drained => trivial
  | handled hhandling =>
    rw [hhandling] at hlast
    exact hlast.elim
  | stopped => trivial
  | handlerFinished => trivial
  | _ => exact hlast

theorem Reaches.isLast (h : Reaches p p') (hlast : p.handler.isLast) : p'.handler.isLast := by
  induction h with
  | refl => exact hlast
  | tail _ hfollows ih =>
    obtain ⟨event, reply, -, hstep⟩ := hfollows
    exact (step_effect hstep).isLast ih

end Processor

end Sluice
