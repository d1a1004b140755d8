import Sigc.Watching
import Sigc.Behaviour

/-!
# Connections do not dangle

Every step keeps what is known about weak pointers, so that it holds of every reachable world.
-/

namespace Sigc

open Reasoning Prog

variable {V : Type} {w w' w₁ : World V}

namespace World.Watched

variable {f g : Frame V} {below : List (Frame V)}

theorem setTop (h : w.Watched) (top : w.frames = f :: below)
    (hf : ∀ t pos deps, f ≠ .notifying t pos deps) (hg : ∀ t pos deps, g ≠ .notifying t pos deps)
    (ha : ∀ dst r, g ≠ .assigning dst r) : (w.setTop g).Watched := by
  have h₁ := Watching.pop h top hf
  have h₂ := h₁.push (f := g) (h.settled_below top) hg fun dst r hgr => absurd hgr (ha dst r)
  unfold World.Watched World.setTop
  rw [top, List.tail_cons]
  exact h₂

theorem pop (h : w.Watched) (top : w.frames = f :: below)
    (hf : ∀ t pos deps, f ≠ .notifying t pos deps) : w.pop.Watched := by
  unfold World.Watched World.pop
  rw [top, List.tail_cons]
  exact Watching.pop h top hf

theorem push (h : w.Watched) (settled : Settled w.reps w.frames)
    (hf : ∀ t pos deps, f ≠ .notifying t pos deps) (ha : ∀ dst r, f ≠ .assigning dst r) :
    (w.push f).Watched :=
  Watching.push h settled hf fun dst r hgr => absurd hgr (ha dst r)

end World.Watched

theorem WellAddressed.not_notifying (hw : WellAddressed w) {t pos : Addr} {deps : List Dependent}
    (ht : w.next ≤ t) : .notifying t pos deps ∉ w.frames :=
  fun hm => absurd (hw.frames _ hm).1 (Nat.not_lt.mpr ht)

theorem WellAddressed.held_lt (hw : WellAddressed w) {r : Addr} (h : Held w.slots w.frames r) :
    r < w.next := by
  obtain ⟨s, sl, hs, hr⟩ | ⟨dst, hm⟩ := h
  · exact hw.slotRep s sl r hs hr
  · exact hw.frames (.assigning dst r) hm

theorem WellAddressed.unheld (hw : WellAddressed w) {r : Addr} (hr : w.next ≤ r) :
    ¬Held w.slots w.frames r := fun h => absurd (hw.held_lt h) (Nat.not_lt.mpr hr)

/-! ## Steps of trackables and weak pointers -/

theorem TrackableStep.watched (h : TrackableStep w w') (hw : WellAddressed w) (hl : w.Watched) :
    w'.Watched := by
  cases h with
  | construct =>
    exact Watching.setClient hl (hw.reps.eq_none (Nat.le_refl _)) fun hheld =>
      absurd (hw.held_lt hheld) (Nat.lt_irrefl _)
  | beginDestroy alive client => exact Watching.setTrackable hl alive rfl
  | endDestroy alive client notified => exact Watching.setClient hl client fun _ => rfl
  | notifyNone alive list => exact Watching.setLog hl (List.subset_cons_self _ _)
  | beginNotify alive list idle reason calm => exact Watching.beginNotify hl calm.settled alive list
  | @skip t tr l pos deps below cb top alive list element inactive =>
    unfold World.Watched World.setTop
    rw [top, List.tail_cons]
    refine Watching.next hl top (fun _ _ h _ => h) fun rep c self _ _ _ hcb => ?_
    rw [callbacksOf_of_list alive list, element] at hcb
    obtain rfl := Option.some.inj hcb
    cases inactive
  | @notifyWeak t tr l pos deps below cb c top alive list element func weak =>
    unfold World.Watched World.setTop World.setWeak
    dsimp only
    rw [top, List.tail_cons]
    -- A pointer that points somewhere after this has not been reset.
    have hold : ∀ c' self, Function.update w.weaks cb.data (some { c with ptr := none }) c' =
        some self → self.ptr ≠ none → c' ≠ cb.data ∧ w.weaks c' = some self := by
      intro c' self hc hptr
      obtain ⟨-, hx⟩ | h := update_eq_some.mp hc
      · obtain rfl := Option.some.inj hx
        exact absurd rfl hptr
      · exact h
    refine Watching.next hl top (fun c' self hc hptr => (hold c' self hc hptr).2)
      fun rep c' self _ hc hptr hcb => ?_
    rw [callbacksOf_of_list alive list, element] at hcb
    obtain rfl := Option.some.inj hcb
    exact (hold c' self hc hptr).1 rfl
  | @endNotify t tr l pos deps below top alive list done =>
    have h₁ := Watching.endNotify hl top alive list done
    unfold World.Watched World.pop World.record World.setTrackable
    dsimp only
    rw [top, List.tail_cons]
    exact h₁.setLog (List.subset_cons_self _ _)

theorem WeakStep.watched (h : WeakStep w w') (hl : w.Watched) : w'.Watched := by
  cases h with
  | refer s => exact Watching.setLog hl (List.subset_cons_self _ _)
  | construct user source run =>
    obtain ⟨-, tks, ign, rfl, hreg⟩ := WeakRawPtr.construct_effect run
    refine Watching.register hl user.calm.settled hreg fun s hs hr => ?_
    obtain hfilled | href | ⟨c, self, hc, hptr⟩ := source s hs
    · exact hfilled
    · exact absurd href hr.1
    · obtain ⟨sl, r, hsl, hrep, -⟩ := hl.tracked c self s hc (hptr.trans hs) hr
      exact ⟨sl, r, hsl, hrep⟩
  | @assign _ c src self user connection run =>
    obtain ⟨mid, tks, ign, self', from_, -, hfrom, rfl, hun, hreg⟩ := WeakRawPtr.assign_effect run
    have h₁ := Watching.unregister hl user.calm.settled hun
    have h₂ := h₁.register (x := { self' with ptr := from_.ptr }) user.calm.settled hreg
      fun s hs hr => by
        obtain ⟨sl, r, hsl, hrep, -⟩ := hl.tracked src from_ s hfrom hs hr
        exact ⟨sl, r, hsl, hrep⟩
    rw [Function.update_idem] at h₂
    exact h₂
  | destroy user connection run =>
    obtain ⟨tks, self, -, rfl, hun⟩ := WeakRawPtr.destroy_effect run
    exact Watching.unregister hl user.calm.settled hun

/-! ## Steps of slots -/

theorem Sever.watched {r : Addr} (h : Sever r w w') (hl : w.Watched) : w'.Watched := by
  have hsever {rep : SlotRep} (alive : w.reps r = some rep) : (w.sever r rep).Watched :=
    (Watching.setRep hl alive).setLog (List.subset_cons_self _ _)
  cases h with
  | none alive parent => exact hsever alive
  | rep alive parent cleanup calm => exact hsever alive
  | expired alive parent cleanup record expired => exact hsever alive
  | defer alive parent cleanup record owned impl executing => exact hsever alive
  | @erase rep d si self sl alive parent cleanup record owned impl idle element slot calm =>
    -- The notification that erases runs outside of any loop over callbacks, or in clear().
    have settled : Settled (w.sever r rep).reps w.frames := by
      intro t pos deps below top
      obtain hcalm | ⟨_, _, _, hclears⟩ := calm
      · rw [World.Calm, top] at hcalm
        cases hcalm
      · rw [top] at hclears
        cases hclears
    have h₁ := (hsever alive).push (f := .cleanup d) settled (by simp) (by simp)
    have h₂ := h₁.push (f := .erase si.self si.iter) (.of_top rfl (by simp)) (by simp) (by simp)
    exact Watching.setSlot h₂ slot rfl

theorem SlotRep.construct_watched {f : Functor} {r : Addr} (hw : WellAddressed w)
    (hl : w.Watched) (functor : w.FunctorOk f) (run : SlotRep.construct f w = (.ret r, w')) :
    w'.Watched := by
  obtain ⟨rfl, tks, ign, rps, rfl, hcons⟩ := construct_effect run
  have h₁ := Watching.newRep hl (x := { call := true, functor := some f })
    (hw.reps.eq_none (Nat.le_refl _)) (hw.unheld (Nat.le_refl _))
    fun _ _ => hw.not_notifying (Nat.le_refl _)
  -- The functor refers to trackables of the client, so no rep gets a callback.
  have h₂ := h₁.clients hcons.registered.changed fun r rep hr => List.count_eq_zero.mpr fun hm => by
    obtain ⟨hlt, hnone⟩ := functor.trackable r hm
    rw [Function.update_of_ne (Nat.ne_of_lt hlt), hnone] at hr
    cases hr
  exact h₂.setReps hcons.bound.none_iff

/-- A slot is created that has no rep, or one that is alive. -/
theorem SlotBase.new_watched {sl : SlotBase} {s : SlotAddr} (hw : WellAddressed w) (hl : w.Watched)
    (rep : ∀ r, sl.rep = some r → ∃ rep, w.reps r = some rep)
    (run : SlotBase.new sl w = (.ret s, w')) : w'.Watched := by
  obtain ⟨rfl, rfl⟩ := new_effect run
  have hfresh : w.slots (.object w.next) = none := hw.slots.eq_none (Nat.le_refl _)
  refine Watching.exchange hl (fun _ => id) (fun sl' r c hs' _ _ => ?_) fun x r hx hr hnone => ?_
  · rw [hfresh] at hs'
    cases hs'
  · obtain rfl := Option.some.inj hx
    obtain ⟨rep, hrep⟩ := rep r hr
    rw [show w.reps r = none from hnone] at hrep
    cases hrep

theorem SlotBase.construct_watched {owner : Owner} {init : SlotInit} {s : SlotAddr}
    (hw : WellAddressed w) (hl : w.Watched) (functor : ∀ f, init.functor = some f → w.FunctorOk f)
    (run : SlotBase.construct owner init w = (.ret s, w')) : w'.Watched := by
  unfold SlotBase.construct at run
  cases hf : init.functor with
  | none =>
    rw [hf] at run
    exact SlotBase.new_watched hw hl (by simp) run
  | some f =>
    rw [hf] at run
    simp only [bind_eq_ret] at run
    obtain ⟨r, w₁, hrep, hnew⟩ := run
    refine SlotBase.new_watched (SlotRep.construct_advances hw (functor f hf) hrep).addressed
      (SlotRep.construct_watched hw hl (functor f hf) hrep) ?_ hnew
    rintro _ ⟨⟩
    obtain ⟨rfl, tks, ign, rps, rfl, hcons⟩ := SlotRep.construct_effect hrep
    exact hcons.bound.alive (Function.update_self _ _ _)

/-- The rep of the slot `s`, whom nobody watches, is taken away. -/
theorem Watching.release (hl : w.Watched) {s : SlotAddr} {x : SlotBase}
    (hx : x.rep = none) (told : w.Unwatched s) :
    (w.setSlot s (some x)).Watched := by
  refine Watching.exchange hl (fun _ => id) (fun sl' r c hs' hr _ hwatch => ?_)
    fun y r hy hr _ => ?_
  · obtain ⟨tr, l, htr, hlist⟩ := hwatch.alive
    rw [told sl' r tr hs' hr htr] at hlist
    cases hlist
  · obtain rfl := Option.some.inj hy
    rw [hx] at hr
    cases hr

theorem SlotBase.takeRep_watched {owner : Owner} {src s : SlotAddr} {blocked : Bool}
    (hw : WellAddressed w) (hl : w.Watched) (told : w.Unwatched src)
    (run : SlotBase.takeRep owner src blocked w = (.ret s, w')) : w'.Watched := by
  unfold SlotBase.takeRep at run
  simp only [bind_eq_ret, loadIntact_eq_ret, modify_eq_ret] at run
  obtain ⟨sl, _, ⟨⟨hsl, -⟩, rfl⟩, _, _, rfl, hnew⟩ := run
  obtain ⟨rfl, rfl⟩ := SlotBase.new_effect hnew
  -- The source's connections have been told before, and the new slot has none yet.
  have h₁ := Watching.release hl (x := { sl with rep := none, blocked := false }) rfl told
  refine Watching.exchange h₁ (fun _ => id) (fun sl' r c hs' _ _ => ?_) fun y r hy hr hnone => ?_
  · obtain ⟨heq, -⟩ | ⟨-, hs'⟩ := update_eq_some.mp hs'
    · exact absurd (hw.slots w.next sl (by rw [← hsl, ← heq]; rfl)) (Nat.lt_irrefl _)
    · exact absurd (hw.slots w.next sl' hs') (Nat.lt_irrefl _)
  · obtain rfl := Option.some.inj hy
    exact .inr (hl.based r (.inl ⟨src, sl, hsl, hr⟩) hnone)

/-- The rep of the slot `s` is exchanged. -/
theorem World.Watched.replaceRep (hl : w.Watched) {s : SlotAddr} {sl : SlotBase} {x : Option Addr}
    (hs : w.slots s = some sl) (held : ∀ r, x = some r → Held w.slots w.frames r) :
    (w.replaceRep s sl x).Watched := by
  refine Watching.exchange hl (List.subset_cons_self _ _) (fun sl' r c hs' hr hreg hwatch => ?_)
    fun y r hy hr _ => ?_
  · obtain ⟨tr, l, htr, -⟩ := hwatch.alive
    -- That connections still watch the old rep is what the log then says of this slot.
    have halive : (w.trackables r).isSome = true := Option.isSome_iff_exists.mpr ⟨tr, htr⟩
    obtain rfl := Option.some.inj (hs.symm.trans hs')
    refine hreg.2 (List.mem_cons.mpr (.inl ?_))
    simp [hr, halive]
  · obtain rfl := Option.some.inj hy
    exact .inl (held r hr)

theorem SlotBase.passParent_watched {new : Addr} {old : Option Addr} (hl : w.Watched)
    (run : SlotBase.passParent new old w = (.ret (), w')) : w'.Watched := by
  obtain ⟨-, rfl⟩ | ⟨r, oldRep, newRep, -, -, hnew, rfl⟩ := passParent_effect run
  · exact hl
  · exact Watching.setRep hl hnew

theorem SlotRep.detachFunctor_watched {r : Addr} {fo : Option Functor} (hw : WellAddressed w)
    (hl : w.Watched) (run : SlotRep.detachFunctor r w = (.ret fo, w')) : w'.Watched := by
  obtain ⟨rep, tks, rps, hrep, hfunctor, rfl, hun, rps₁, rep', hrps, hrep', rfl⟩ :=
    detachFunctor_effect run
  have h₁ := Watching.clients hl hun fun q rp hq => List.count_eq_zero.mpr fun hm => by
    cases fo with
    | none => cases hm
    | some f =>
      rw [((hw.functor r rep f hrep hfunctor).trackable q hm).2] at hq
      cases hq
  have h₂ := (h₁.setRep hrep).setReps hrps.none_iff
  exact h₂.setRep hrep'

theorem World.CallsBack.settled {r : Addr} (h : w.CallsBack r) (hw : WellAddressed w) :
    Settled w.reps w.frames := by
  obtain ⟨t, pos, deps, below, tr, l, top, alive, list, element⟩ := h
  intro t' pos' deps' below' top'
  rw [top] at top'
  obtain ⟨rfl, rfl, rfl⟩ := Frame.notifying.inj (List.cons.inj top').1
  by_contra hne
  obtain ⟨rep, hrep⟩ := Option.ne_none_iff_exists'.mp hne
  -- Only weak pointers register with the base of a rep, so this is the loop of a client's
  -- trackable.
  have hmem : (⟨r, some .notifySlotRepInvalidated⟩ : TrackableCallback) ∈ tr.callbacks.callbacks := by
    rw [Trackable.callbacks, list]
    exact List.mem_of_getElem? element
  obtain h | h := hw.weakOnly t rep tr hrep alive _ hmem <;> cases h

theorem World.invalidating_watched {r x : Addr} {rep : SlotRep} (hl : w.Watched)
    (settled : Settled w.reps w.frames) (alive : w.reps r = some rep)
    (run : WeakRawPtr.construct (some (.rep r)) true
      ((w.setRep r (some { rep with call := false })).record (.disconnected r)) = (.ret x, w₁)) :
    (w₁.push (.invalidating r x)).Watched := by
  obtain ⟨-, tks, ign, rfl, hreg⟩ := WeakRawPtr.construct_effect run
  -- The rep stays where it is, with call_ cleared.
  have hreps : ∀ t, Function.update w.reps r (some { rep with call := false }) t = none ↔
      w.reps t = none := by
    intro t
    by_cases ht : t = r
    · simp [ht, alive]
    · rw [Function.update_of_ne ht]
  have settled' : Settled (Function.update w.reps r (some { rep with call := false })) w.frames :=
    fun t pos deps below top => (hreps t).mpr (settled t pos deps below top)
  have h₁ := (Watching.setRep hl alive (x := { rep with call := false })).setLog
    (List.subset_cons_self (.disconnected r) _)
  have h₂ := h₁.register (x := { ptr := some (.rep r), notifier := true }) settled' hreg (by simp)
  exact World.Watched.push h₂ settled' (by simp) (by simp)

theorem WeakRawPtr.destroy_watched {c : Addr} (hl : w.Watched) (settled : Settled w.reps w.frames)
    (run : WeakRawPtr.destroy c w = (.ret (), w')) : w'.Watched := by
  obtain ⟨tks, self, -, rfl, hun⟩ := destroy_effect run
  exact Watching.unregister hl settled hun

theorem World.Watched.settled_pop {f : Frame V} {below : List (Frame V)} (hl : w.Watched)
    (top : w.frames = f :: below) : Settled w.pop.reps w.pop.frames := by
  have h := Watching.settled_below hl top
  unfold World.pop
  rwa [top, List.tail_cons]

theorem SlotStep.watched (h : SlotStep w w') (hw : WellAddressed w) (hl : w.Watched) :
    w'.Watched := by
  cases h with
  | construct unlisted functor run => exact SlotBase.construct_watched hw hl functor run
  | move r => exact Watching.setLog hl (List.subset_cons_self _ _)
  | take unlisted source told run => exact SlotBase.takeRep_watched hw hl told run
  | setBlocked b alive => exact Watching.setSlot hl alive rfl
  | beginDestroy alive unlisted => exact Watching.setSlot hl alive rfl
  | @endDestroy s empty =>
    refine Watching.exchange hl (fun _ => id) (fun sl' r c hs' hr _ hwatch => ?_) (by simp)
    obtain ⟨tr, l, htr, -⟩ := hwatch.alive
    rw [((empty sl' hs').2 r hr).2] at htr
    cases htr
  | sever h => exact h.watched hl
  | startInvalidation calm alive run sever =>
    exact sever.watched (World.invalidating_watched hl
      (calm.elim (·.settled) (·.settled hw)) alive run)
  | detach top run => exact SlotRep.detachFunctor_watched hw hl run
  | endInvalidation top weak gutted run =>
    exact WeakRawPtr.destroy_watched (hl.pop top (by simp)) (hl.settled_pop top) run
  | @endCallback w₁ r x c t pos deps below tr l top weak gutted run alive list element =>
    have h₁ := WeakRawPtr.destroy_watched (hl.pop top (by simp)) (hl.settled_pop top) run
    -- The loop that called back is over a trackable of the client, which no connection watches.
    have hclient := hl.settled_pop top
    obtain ⟨tks, self, -, rfl, -⟩ := WeakRawPtr.destroy_effect run
    have htop : w.pop.frames = .notifying t pos deps :: below := by simp [World.pop, top]
    unfold World.Watched World.setTop
    dsimp only
    rw [htop, List.tail_cons]
    refine Watching.next h₁ htop (fun _ _ h _ => h) fun rep _ _ hrep => ?_
    rw [show w.pop.reps t = none from hclient t pos deps below htop] at hrep
    cases hrep
  | @beginDelete w' r base fo s sl calm alive idle slot rep unlisted run =>
    have h₁ : ((w.setTrackable r (some { base with dying := true })).push (.deleting r)).Watched :=
      World.Watched.push (Watching.setTrackable hl alive rfl) calm.settled (by simp) (by simp)
    have hr : r < w.next := hw.trackables r base alive
    have ha := Advances.setTrackable hw alive (x := { base with dying := true })
      (fun _ => rfl) (·.of_callbackList rfl)
    have ha' := ha.trans (.push (f := .deleting r) ha.addressed hr (by simp [Frame.owns]))
    exact SlotRep.detachFunctor_watched ha'.addressed h₁ run
  | @endDelete r base below top alive notified =>
    exact World.Watched.pop (w := (w.setRep r none).setTrackable r none)
      (Watching.eraseRep hl alive notified) top (by simp)
  | @startCheck w₁ s sl r x calm alive rep unlisted run =>
    obtain ⟨-, tks, ign, rfl, hreg⟩ := WeakRawPtr.construct_effect run
    have h₁ := Watching.register (x := { ptr := some (.rep r), notifier := true }) hl calm.settled
      hreg (by simp)
    exact World.Watched.push h₁ calm.settled (by simp) (by simp)
  | clearRep top alive intact unlisted => exact hl.replaceRep alive (by simp)
  | endCheck top run =>
    exact WeakRawPtr.destroy_watched (hl.pop top (by simp)) (hl.settled_pop top) run
  | @cloneFor w' dst f new calm unlisted functor run =>
    unfold SlotBase.cloneFor loadSlot at run
    simp only [bind_eq_ret, deref_eq_ret, modify_eq_ret, pure_eq_ret] at run
    obtain ⟨_, _, hcons, sl, _, ⟨hsl, rfl⟩, _, w₂, hpass, _, _, rfl, rfl, rfl⟩ := run
    have h₁ := SlotBase.passParent_watched (SlotRep.construct_watched hw hl functor hcons) hpass
    have hframes : w₂.frames = w.frames := by
      obtain ⟨rfl, tks, ign, rps, rfl, -⟩ := SlotRep.construct_effect hcons
      obtain ⟨-, rfl⟩ | ⟨_, _, _, -, -, -, rfl⟩ := SlotBase.passParent_effect hpass <;> rfl
    have hcalm : w₂.Calm := calm.of_frames hframes
    refine Watching.push h₁ hcalm.settled (by simp) ?_
    rintro _ _ ⟨⟩ hnone
    obtain ⟨rfl, tks, ign, rps, rfl, hrep⟩ := SlotRep.construct_effect hcons
    -- The clone is alive when it is handed to the assignment.
    obtain ⟨rep, halive⟩ := hrep.bound.alive (Function.update_self w.next _ _)
    obtain ⟨-, rfl⟩ | ⟨_, _, _, -, -, -, rfl⟩ := SlotBase.passParent_effect hpass
    · rw [show rps w.next = none from hnone] at halive
      cases halive
    · cases (Function.update_self _ _ _).symm.trans hnone
  | @moveFor w' dst src new calm unlisted source told run =>
    obtain ⟨from_, sl, w₂, ⟨hfrom, -⟩, hnew, hdst, hpass, rfl⟩ := SlotBase.moveFor_effect run
    have h₁ := SlotBase.passParent_watched
      (Watching.release hl (x := { from_ with rep := none, blocked := false }) rfl told) hpass
    have hframes : w₂.frames = w.frames := by
      obtain ⟨-, rfl⟩ | ⟨_, _, _, -, -, -, rfl⟩ := SlotBase.passParent_effect hpass <;> rfl
    have hcalm : w₂.Calm := calm.of_frames hframes
    refine Watching.push h₁ hcalm.settled (by simp) ?_
    rintro _ _ ⟨⟩ hnone
    obtain ⟨-, rfl⟩ | ⟨_, _, _, -, -, -, rfl⟩ := SlotBase.passParent_effect hpass
    · exact hl.based new (.inl ⟨src, from_, hfrom, hnew⟩) hnone
    · cases (Function.update_self _ _ _).symm.trans hnone
  | @finishAssign dst new self below top alive intact unlisted =>
    refine World.Watched.pop (hl.replaceRep alive ?_) top (by simp)
    rintro _ ⟨⟩
    exact .inr ⟨dst, top ▸ List.mem_cons_self⟩
  | @pushHandler r rep calm alive call =>
    exact World.Watched.push (w := w.record (.invoked r))
      (Watching.setLog hl (List.subset_cons_self _ _)) calm.settled (by simp) (by simp)
  | popHandler top => exact hl.pop top (by simp)
  | pushFunctorDtor calm used functor gutted => exact hl.push calm.settled (by simp) (by simp)
  | nextTarget top => exact hl.setTop top (by simp) (by simp) (by simp)
  | popFunctorDtor top => exact hl.pop top (by simp)

/-! ## Steps of signals and emissions -/

/-- An element takes its place: it keeps its rep, or gets a `dummy_slot_rep`. -/
theorem SignalImpl.placed_watched {i : Addr} {first : Bool} {n : SlotAddr} {sl : SlotBase}
    (hw : WellAddressed w) (hl : w.Watched) (h : Placed w i first n sl w') : w'.Watched := by
  obtain ⟨hsl, self, r, rep, nx, tks, -, -, hplaced, rfl⟩ := h
  obtain ⟨hr, hrep, -, rfl⟩ | ⟨hr, rfl, rfl, -, rfl⟩ := hplaced
  · exact ((Watching.setRep hl hrep).setSlot hsl hr.symm).setLog (List.subset_cons_self _ _)
  · have hle : w.next ≤ w.next + 1 := Nat.le_succ _
    have h₁ := Watching.newRep hl (hw.reps.eq_none hle) (hw.unheld hle)
      (x := { call := false, parent := some w.next
              cleanup := some .notifySelfAndIterOfInvalidatedSlot })
      fun _ _ => hw.not_notifying hle
    refine Watching.exchange h₁ (x := some { sl with rep := some (w.next + 1) })
      (List.subset_cons_self _ _) ?_ ?_
    · intro sl' q c hs' hq
      obtain rfl := Option.some.inj (hsl.symm.trans hs')
      rw [hr] at hq
      cases hq
    · rintro _ q ⟨⟩ ⟨⟩ hnone
      cases (Function.update_self _ _ _).symm.trans hnone

theorem World.letGo_watched {i : Option Addr} {old : Option Addr} (hl : w.Watched)
    (calm : w.Calm) (run : SignalBase.letGo i w = (.ret old, w')) : w'.Watched := by
  obtain ⟨-, rfl⟩ := SignalBase.letGo_effect run
  cases i with
  | none => exact hl
  | some i =>
    change (w.letGo i).Watched
    unfold World.letGo
    split
    · exact hl.push calm.settled (by simp) (by simp)
    · exact World.Watched.push (w := w.record (.expired i (w.frames.any (Frame.execOn i))))
        (Watching.setLog hl (List.subset_cons_self _ _)) calm.settled (by simp) (by simp)

theorem SignalBase.impl_watched {h i : Addr} (hl : w.Watched)
    (run : SignalBase.impl h w = (.ret i, w')) : w'.Watched := by
  obtain ⟨-, rfl⟩ | ⟨-, -, rfl⟩ := impl_effect run
  · exact hl
  · exact hl

/-- `sweep()` begins after the frame on top has been replaced or popped. -/
theorem SignalImpl.enterSweep_watched {i : Addr} {it : Option SlotAddr} (hl : w.Watched)
    (settled : Settled w.reps w.frames) (run : SignalImpl.enterSweep i w = (.ret it, w')) :
    w'.Watched := by
  obtain ⟨self, -, -, rfl⟩ := enterSweep_effect run
  exact World.Watched.push (w := w.setImpl i _) hl settled (by simp) (by simp)

theorem SignalStep.watched (h : SignalStep w w') (hw : WellAddressed w) (hl : w.Watched) :
    w'.Watched := by
  cases h with
  | insertBuilt user owned functor run =>
    obtain ⟨w₁, sl, hcons, -, hp⟩ := SignalImpl.insertBuilt_effect run
    exact SignalImpl.placed_watched (SlotBase.construct_advances hw functor hcons).addressed
      (SlotBase.construct_watched hw hl functor hcons) hp
  | insertTaken user owned source told run =>
    obtain ⟨w₁, sl, htake, -, -, hp⟩ := SignalImpl.insertTaken_effect run
    exact SignalImpl.placed_watched (SlotBase.takeRep_advances hw source htake).addressed
      (SlotBase.takeRep_watched hw hl told htake) hp
  | new => exact hl
  | impl run => exact SignalBase.impl_watched hl run
  | copyConstruct handle run =>
    obtain ⟨i, w₁, hrun, -, rfl⟩ := SignalBase.copyConstruct_effect run
    have h₁ := SignalBase.impl_watched hl hrun
    exact h₁
  | moveConstruct run =>
    obtain ⟨-, rfl⟩ := SignalBase.moveConstruct_effect run
    exact hl
  | @replaceImpl w' h i old calm owned run =>
    obtain ⟨-, hgo⟩ := SignalBase.replaceImpl_effect run
    exact World.letGo_watched (w := w.setHandle h i) hl calm hgo
  | @dropHandle w' h old calm run =>
    obtain ⟨-, hgo⟩ := SignalBase.dropHandle_effect run
    exact World.letGo_watched (w := { w with handles := w.handles.filter (·.1 ≠ h) }) hl calm hgo
  | endRelease top done => exact hl.pop top (by simp)
  | endDispose top unowned idle alive empty => exact hl
  | @endCleanup d below top => exact World.Watched.pop (w := w.setRecord d none) hl top (by simp)
  | enterClear calm run =>
    obtain ⟨self, himpl, rfl, rfl, rfl, -, rfl⟩ := SignalImpl.enterClear_effect run
    exact World.Watched.push (w := w.setImpl _ _) hl calm.settled (by simp) (by simp)
  | clearNext top impl next severed => exact hl.setTop top (by simp) (by simp) (by simp)
  | recordCleared top => exact Watching.setLog hl (List.subset_cons_self _ _)
  | restoreDeferred top impl => exact hl
  | @clearErase i saved below self s rest sl top impl slots alive =>
    exact World.Watched.setTop (w := w.unlinkDying i self s sl) (Watching.setSlot hl alive rfl) top
      (by simp) (by simp) (by simp)
  | clearErased top gone => exact hl.setTop top (by simp) (by simp) (by simp)
  | @leaveClear i during saved below self top impl cleared quiet =>
    exact World.Watched.pop (w := w.decrement i self) hl top (by simp)
  | @leaveClearSweep w' i during saved below self it top impl cleared sweeps owned run =>
    exact SignalImpl.enterSweep_watched (World.Watched.pop (w := w.decrement i self) hl top (by simp))
      (World.Watched.settled_pop (w := w.decrement i self) hl top) run
  | sweepSkip top impl next keep => exact hl.setTop top (by simp) (by simp) (by simp)
  | @sweepErase i it it' below self sl top impl next element empty alive =>
    exact World.Watched.setTop (w := w.unlinkDying i self it sl) (Watching.setSlot hl alive rfl) top
      (by simp) (by simp) (by simp)
  | sweepErased top gone => exact hl.setTop top (by simp) (by simp) (by simp)
  | @leaveHolder i below f self top holder impl quiet =>
    refine World.Watched.setTop (w := w.decrement i self) hl top ?_ (by simp) (by simp)
    obtain rfl | ⟨n, rfl, -⟩ := holder <;> simp
  | @leaveHolderSweep w' i below f self it top holder impl sweeps run =>
    refine SignalImpl.enterSweep_watched (World.Watched.setTop (w := w.decrement i self) hl top ?_
      (by simp) (by simp)) (.of_top rfl (by simp)) run
    obtain rfl | ⟨n, rfl, -⟩ := holder <;> simp
  | startRelease top => exact hl.setTop top (by simp) (by simp) (by simp)

/-- A placeholder, which has no rep, comes or goes. -/
theorem World.Watched.setPlaceholder (hl : w.Watched) (hw : WellAddressed w) {d : Nat}
    {x : Option SlotBase} (hx : ∀ y, x = some y → y.rep = none) :
    (w.setSlot (.placeholder d) x).Watched := by
  refine Watching.exchange hl (fun _ => id) (fun sl r c hs hr => ?_) fun x r hs hr => ?_
  · rw [(hw.placeholder d sl hs).1] at hr
    cases hr
  · rw [hx x hs] at hr
    cases hr

theorem World.Watched.finish (hl : w.Watched) (hw : Sound w) {e : Emission V}
    {below : List (Frame V)} (top : w.frames = .emission e :: below) (self y : SignalImpl)
    (completed : Bool) :
    (((w.erasePlaceholder e self completed).decrement e.impl y).setTop (.holding e.impl)).Watched := by
  have hm : some (.emitting e.impl e.placeholder) ∈ w.links := by
    simp [World.links, top, Frame.link]
  obtain ⟨d, hd⟩ := Linkage.emitting hw.linked e.impl e.placeholder hm
  have h₁ := hl.setPlaceholder hw.toWellAddressed (d := d) (x := none) (by simp)
  rw [← hd] at h₁
  exact World.Watched.setTop (w := (w.erasePlaceholder e self completed).decrement e.impl y) h₁ top
    (by simp) (by simp) (by simp)

theorem EmissionStep.watched (h : EmissionStep w w') (hw : Sound w) (hl : w.Watched) :
    w'.Watched := by
  cases h with
  | @start w' i e calm owned run =>
    obtain ⟨self, himpl, -, rfl, rfl⟩ := Emission.start_effect run
    have h₁ := hl.setPlaceholder hw.toWellAddressed (d := w.frames.length)
      (x := some { owner := .list i }) (by simp)
    exact (Watching.push h₁ calm.settled (by simp) (by simp)).setLog (List.subset_cons_self _ _)
  | skip top inside arrived slot uncallable impl next =>
    exact hl.setTop top (by simp) (by simp) (by simp)
  | beginCall top inside arrived callable => exact hl.setTop top (by simp) (by simp) (by simp)
  | endCall v top invoking => exact hl.setTop top (by simp) (by simp) (by simp)
  | advance top invoked impl next => exact hl.setTop top (by simp) (by simp) (by simp)
  | finish top ends impl element quiet => exact hl.finish hw top _ _ _
  | finishSweep top ends impl element sweeps run =>
    exact SignalImpl.enterSweep_watched (hl.finish hw top _ _ _) (.of_top rfl (by simp)) run

theorem Step.watched (h : Step w w') (hw : Sound w) (hl : w.Watched) : w'.Watched := by
  cases h with
  | command script wellFormed => exact hl
  | trackable h => exact h.watched hw.toWellAddressed hl
  | weak h => exact h.watched hl
  | slot h => exact h.watched hw.toWellAddressed hl
  | signal h => exact h.watched hw.toWellAddressed hl
  | emission h => exact h.watched hw hl

theorem Steps.watched (h : Steps w w') (hw : Sound w) (hl : w.Watched) : w'.Watched :=
  (h.preserves (P := fun w => Sound w ∧ w.Watched) ⟨hw, hl⟩ fun _ _ hstep h =>
    ⟨hstep.sound h.1, hstep.watched h.1 h.2⟩).2

theorem World.Watched.initial (script : List (Cmd V)) : ({ script } : World V).Watched where
  clearing := by simp
  below := by simp
  based := by simp
  tracked := by simp

end Sigc
