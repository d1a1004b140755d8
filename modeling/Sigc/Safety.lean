import Sigc.Guarantees

/-!
# No iterator is lost

An element that is being destroyed is not in its list any more, but its slot still exists, and its
rep may refer to it.  While it exists, the function that has erased it holds the execution count of
the list, so that whoever disconnects the slot again does not erase it a second time.
-/

namespace Sigc

open Reasoning Prog

variable {V : Type} {w w' v : World V} {i : Addr} {n : SlotAddr} {self : SignalImpl}
  {fs below : List (Frame V)} {f g : Frame V}

/-- The element of the list `i` that a suspended function has erased. -/
def Frame.erasing (i : Addr) : Frame V → Option SlotAddr
  | .sweep j _ erased | .clear j _ erased _ _ => if j = i then erased else none
  | .erase j n => if j = i then some n else none
  | _ => none

theorem Frame.erasing_execOn (h : f.erasing i = some n) : f.execOn i = true := by
  cases f <;> simp only [Frame.erasing] at h
  case sweep | clear | erase =>
    split at h
    · simpa [Frame.execOn]
    · cases h
  all_goals cases h

/-- One of the functions has erased `n`. -/
def Erases (frames : List (Frame V)) (i : Addr) (n : SlotAddr) : Prop :=
  ∃ f ∈ frames, f.erasing i = some n

namespace Erases

theorem push (h : Erases fs i n) : Erases (f :: fs) i n := by
  obtain ⟨g, hg, herasing⟩ := h
  exact ⟨g, List.mem_cons_of_mem f hg, herasing⟩

theorem below_of_top (h : Erases fs i n) (top : fs = f :: below) (hf : f.erasing i ≠ some n) :
    Erases below i n := by
  obtain ⟨g, hg, herasing⟩ := h
  rw [top] at hg
  rcases List.mem_cons.mp hg with rfl | hg
  · exact absurd herasing hf
  · exact ⟨g, hg, herasing⟩

theorem setTop (h : Erases w.frames i n) (top : w.frames = f :: below)
    (hf : f.erasing i ≠ some n) : Erases (w.setTop g).frames i n := by
  rw [World.setTop, top]
  exact (h.below_of_top top hf).push

end Erases

/-- No slot in a list begins to be destroyed. -/
def Ages (old new : SlotAddr → Option SlotBase) : Prop :=
  ∀ n y, new n = some y → y.dying = true → (∀ i, y.owner ≠ .list i) ∨
    ∃ x, old n = some x ∧ x.owner = y.owner ∧ x.dying = true

namespace Ages

variable {old mid new : SlotAddr → Option SlotBase} {s : SlotAddr} {x y : SlotBase}

theorem refl (old : SlotAddr → Option SlotBase) : Ages old old :=
  fun _ y hy hdying => .inr ⟨y, hy, rfl, hdying⟩

theorem trans (h : Ages old mid) (h' : Ages mid new) : Ages old new := by
  intro n z hz hdying
  rcases h' n z hz hdying with hout | ⟨y, hy, howner, hdying⟩
  · exact .inl hout
  · rw [← howner]
    exact h n y hy hdying

theorem create (hy : y.dying = true → ∀ i, y.owner ≠ .list i) :
    Ages old (Function.update old s (some y)) := by
  intro n z hz hdying
  rcases update_eq_some.mp hz with ⟨-, heq⟩ | ⟨-, hz⟩
  · rw [← Option.some.inj heq] at hdying ⊢
    exact .inl (hy hdying)
  · exact Ages.refl old n z hz hdying

theorem update (hx : old s = some x) (howner : x.owner = y.owner)
    (hdying : y.dying = true → x.dying = true) : Ages old (Function.update old s (some y)) := by
  intro n z hz hz'
  rcases update_eq_some.mp hz with ⟨rfl, heq⟩ | ⟨-, hz⟩
  · rw [← Option.some.inj heq] at hz' ⊢
    exact .inr ⟨x, hx, howner, hdying hz'⟩
  · exact Ages.refl old n z hz hz'

theorem erase (old : SlotAddr → Option SlotBase) (s : SlotAddr) :
    Ages old (Function.update old s none) := by
  intro n z hz hdying
  rcases update_eq_some.mp hz with ⟨-, heq⟩ | ⟨-, hz⟩
  · cases heq
  · exact Ages.refl old n z hz hdying

end Ages

namespace World

/-- An element that is being destroyed has been erased by a function that is running. -/
def Removing (w : World V) : Prop :=
  ∀ n sl i, w.slots n = some sl → sl.owner = .list i → sl.dying = true → Erases w.frames i n

theorem Removing.keep (h : w.Removing) (ages : Ages w.slots w'.slots)
    (frames : ∀ i n, Erases w.frames i n → w'.slots n ≠ none → Erases w'.frames i n) :
    w'.Removing := by
  intro n sl' i hsl' howner hdying
  rcases ages n sl' hsl' hdying with hout | ⟨sl, hsl, heq, hdying⟩
  · exact absurd howner (hout i)
  · exact frames i n (h n sl i hsl (heq.trans howner) hdying) (by simp [hsl'])

/-- The element `s` is erased, and destroyed by the function on top of the stack. -/
theorem Removing.unlink (h : w.Removing) {s : SlotAddr} {sl : SlotBase} (hsl : w.slots s = some sl)
    (linked : w.Linked) (impl : w.impls i = some self) (hn : s ∈ self.slots)
    (slots : w'.slots = Function.update w.slots s (some { sl with dying := true }))
    (frames : ∀ j n, Erases w.frames j n → n ≠ s → Erases w'.frames j n)
    (erases : Erases w'.frames i s) : w'.Removing := by
  obtain ⟨x, hx, howner, -⟩ := linked.element i self s impl hn
  obtain rfl := Option.some.inj (hsl.symm.trans hx)
  intro n sl' j hsl' howner' hdying
  rw [slots] at hsl'
  rcases update_eq_some.mp hsl' with ⟨rfl, heq⟩ | ⟨hne, hold⟩
  · rw [← Option.some.inj heq] at howner'
    obtain rfl : i = j := Owner.list.inj (howner.symm.trans howner')
    exact erases
  · exact frames j n (h n sl' j hold howner' hdying) hne

end World

/-! ## Steps -/

theorem SlotBase.construct_ages {owner : Owner} {init : SlotInit} {s : SlotAddr}
    (run : SlotBase.construct owner init w = (.ret s, w')) :
    Ages w.slots w'.slots ∧ w'.frames = w.frames := by
  obtain ⟨-, -, rfl⟩ | ⟨g, tks, ign, rps, -, hcons, -, rfl⟩ := SlotBase.construct_effect run
  · exact ⟨.create (by simp), rfl⟩
  · exact ⟨.create (by simp), rfl⟩

theorem SlotBase.takeRep_ages {owner : Owner} {src s : SlotAddr} {blocked : Bool}
    (run : SlotBase.takeRep owner src blocked w = (.ret s, w')) :
    Ages w.slots w'.slots ∧ w'.frames = w.frames := by
  obtain ⟨sl, ⟨hsl, -⟩, -, rfl⟩ := SlotBase.takeRep_effect run
  -- the source loses its rep, and the new slot gets it
  have hsource : Ages w.slots
      (Function.update w.slots src (some { owner := sl.owner, dying := sl.dying })) :=
    .update hsl rfl id
  exact ⟨hsource.trans (.create fun h => by cases h), rfl⟩

theorem SlotBase.passParent_slots {new : Addr} {old : Option Addr}
    (run : SlotBase.passParent new old v = (.ret (), w')) :
    w'.slots = v.slots ∧ w'.frames = v.frames := by
  obtain ⟨-, rfl⟩ | ⟨q, oldRep, newRep, -, -, -, rfl⟩ := SlotBase.passParent_effect run
  · exact ⟨rfl, rfl⟩
  · exact ⟨rfl, rfl⟩

namespace World.Removing

theorem push (h : w.Removing) (slots : Ages w.slots w'.slots)
    (frames : w'.frames = f :: w.frames) : w'.Removing :=
  h.keep slots fun _ _ he _ => frames ▸ he.push

theorem same (h : w.Removing) (slots : Ages w.slots w'.slots) (frames : w'.frames = w.frames) :
    w'.Removing :=
  h.keep slots fun _ _ he _ => frames ▸ he

/-- The function on top of the stack, which has erased nothing, ends or goes on. -/
theorem replace (h : w.Removing) (slots : Ages w.slots w'.slots) (top : w.frames = f :: below)
    (hf : ∀ i n, w'.slots n ≠ none → f.erasing i ≠ some n)
    (frames : w'.frames = below ∨ ∃ g, w'.frames = g :: below) : w'.Removing := by
  refine h.keep slots fun i n he hn => ?_
  have hbelow := he.below_of_top top (hf i n hn)
  rcases frames with heq | ⟨g, heq⟩
  · exact heq ▸ hbelow
  · exact heq ▸ hbelow.push

/-- The function on top of the stack, which has erased nothing, goes on. -/
theorem setTop (h : w.Removing) (top : w.frames = f :: below) (hf : ∀ i, f.erasing i = none) :
    (w.setTop g).Removing := by
  refine h.replace (.refl _) top (fun i n _ heq => ?_) (.inr ⟨g, congrArg (g :: ·) ?_⟩)
  · rw [hf i] at heq
    cases heq
  · exact congrArg List.tail top

/-- The function on top of the stack, which has erased nothing, ends. -/
theorem pop (h : w.Removing) (top : w.frames = f :: below) (hf : ∀ i, f.erasing i = none) :
    w.pop.Removing := by
  refine h.replace (.refl _) top (fun i n _ heq => ?_) (.inl (congrArg List.tail top))
  rw [hf i] at heq
  cases heq

/-- The last element that has been erased under the holder is gone. -/
theorem leaveHolder (h : w.Removing) (top : w.frames = f :: below)
    (holder : f = .sweep i none none ∨ ∃ n, f = .erase i n ∧ w.slots n = none) :
    ((w.decrement i self).setTop (.holding i)).Removing := by
  refine h.replace (.refl _) top (fun j n hn heq => ?_)
    (.inr ⟨.holding i, congrArg (_ :: ·) (congrArg List.tail top)⟩)
  obtain rfl | ⟨m, rfl, hm⟩ := holder
  · simp [Frame.erasing] at heq
  · obtain ⟨-, rfl⟩ : i = j ∧ m = n := by simpa [Frame.erasing] using heq
    exact hn hm

theorem finish (h : w.Removing) {e : Emission V} (top : w.frames = .emission e :: below)
    {completed : Bool} :
    (((w.erasePlaceholder e self completed).decrement e.impl
      { self with slots := self.slots.erase e.placeholder }).setTop (.holding e.impl)).Removing :=
  h.replace (.erase _ _) top (fun _ _ _ heq => by cases heq)
    (.inr ⟨.holding e.impl, congrArg (_ :: ·) (congrArg List.tail top)⟩)

end World.Removing

theorem Sever.removing {r : Addr} (h : Sever r w w') (linked : w.Linked) (hr : w.Removing) :
    w'.Removing := by
  cases h with
  | none alive parent => exact hr
  | rep alive parent cleanup calm => exact hr
  | expired alive parent cleanup record expired => exact hr
  | defer alive parent cleanup record owned impl executing => exact hr
  | erase alive parent cleanup record owned impl idle element slot calm =>
    refine hr.unlink slot linked impl element rfl (fun j n he _ => he.push.push) ?_
    exact ⟨_, List.mem_cons_self, by simp [Frame.erasing]⟩

theorem SlotStep.removing (h : SlotStep w w') (linked : w.Linked) (hr : w.Removing) :
    w'.Removing := by
  cases h with
  | construct unlisted functor run =>
    obtain ⟨ages, frames⟩ := SlotBase.construct_ages run
    exact hr.same ages frames
  | move r => exact hr
  | take unlisted source told run =>
    obtain ⟨ages, frames⟩ := SlotBase.takeRep_ages run
    exact hr.same ages frames
  | setBlocked b alive => exact hr.same (.update alive rfl id) rfl
  | beginDestroy alive unlisted =>
    exact hr.same (.create fun _ i howner => unlisted ⟨_, i, alive, howner⟩) rfl
  | endDestroy empty => exact hr.same (.erase _ _) rfl
  | sever h => exact h.removing linked hr
  | startInvalidation calm alive run sever =>
    apply sever.removing (linked.invalidating alive run)
    obtain ⟨-, tks, ign, rfl, -⟩ := WeakRawPtr.construct_effect run
    exact hr.push (.refl _) rfl
  | detach top run =>
    obtain ⟨rep, tks, rps, -, -, rfl, -⟩ := SlotRep.detachFunctor_effect run
    exact hr
  | endInvalidation top weak gutted run =>
    obtain ⟨tks, self, -, rfl, -⟩ := WeakRawPtr.destroy_effect run
    exact hr.pop top fun _ => rfl
  | @endCallback w₁ r x c t pos deps below tr l top weak gutted run alive list element =>
    obtain ⟨tks, self, -, rfl, -⟩ := WeakRawPtr.destroy_effect run
    have hpopped : w.pop.Removing := hr.pop top fun _ => rfl
    have htop : w.pop.frames = .notifying t pos deps :: below := congrArg List.tail top
    exact World.Removing.setTop (w := w.pop) hpopped htop fun _ => rfl
  | beginDelete calm alive idle slot rep unlisted run =>
    obtain ⟨rep', tks, rps, -, -, rfl, -⟩ := SlotRep.detachFunctor_effect run
    exact hr.push (.refl _) rfl
  | endDelete top alive notified => exact hr.pop top fun _ => rfl
  | startCheck calm alive rep unlisted run =>
    obtain ⟨-, tks, ign, rfl, -⟩ := WeakRawPtr.construct_effect run
    exact hr.push (.refl _) rfl
  | clearRep top alive intact unlisted => exact hr.same (.update alive rfl id) rfl
  | endCheck top run =>
    obtain ⟨tks, self, -, rfl, -⟩ := WeakRawPtr.destroy_effect run
    exact hr.pop top fun _ => rfl
  | cloneFor calm unlisted functor run =>
    obtain ⟨rfl, tks, ign, rps, sl, w₂, hcons, alive, hpass, rfl⟩ := SlotBase.cloneFor_effect run
    obtain ⟨slots, frames⟩ := SlotBase.passParent_slots hpass
    exact hr.push (slots ▸ .refl _) (congrArg (_ :: ·) frames)
  | moveFor calm unlisted source told run =>
    obtain ⟨from_, sl, w₂, ⟨hfrom, -⟩, -, -, hpass, rfl⟩ := SlotBase.moveFor_effect run
    obtain ⟨slots, frames⟩ := SlotBase.passParent_slots hpass
    exact hr.push (slots ▸ .update hfrom rfl id) (congrArg (_ :: ·) frames)
  | finishAssign top alive intact unlisted =>
    refine hr.replace (.update alive rfl id) top (fun i n _ heq => by cases heq) (.inl ?_)
    rw [World.pop]
    exact congrArg List.tail top
  | pushHandler calm alive call => exact hr.push (.refl _) rfl
  | popHandler top => exact hr.pop top fun _ => rfl
  | pushFunctorDtor calm used functor gutted => exact hr.push (.refl _) rfl
  | nextTarget top => exact hr.setTop top fun _ => rfl
  | popFunctorDtor top => exact hr.pop top fun _ => rfl

theorem SignalImpl.Placed.ages {first : Bool} {sl : SlotBase}
    (h : SignalImpl.Placed w i first n sl w') (hd : sl.dying = false) :
    Ages w.slots w'.slots ∧ w'.frames = w.frames := by
  obtain ⟨hsl, self, r, rep, nx, tks, -, -, -, rfl⟩ := h
  refine ⟨.update hsl rfl fun hdying => ?_, rfl⟩
  rw [hd] at hdying
  cases hdying

theorem SignalImpl.insertBuilt_ages {first : Bool} {init : SlotInit}
    (run : SignalImpl.insertBuilt i first init w = (.ret n, w')) :
    Ages w.slots w'.slots ∧ w'.frames = w.frames := by
  obtain ⟨w₁, rep?, hcons, hframes, hplaced⟩ := SignalImpl.insertBuilt_effect run
  obtain ⟨hages, hframes'⟩ := hplaced.ages rfl
  have hbuilt : Ages w.slots w₁.slots := by
    obtain ⟨-, -, rfl⟩ | ⟨g, tks, ign, rps, -, -, -, rfl⟩ := SlotBase.construct_effect hcons
    · exact .create fun h => by cases h
    · exact .create fun h => by cases h
  exact ⟨hbuilt.trans hages, hframes'.trans hframes⟩

theorem SignalImpl.insertTaken_ages {first blocked : Bool} {src : SlotAddr}
    (run : SignalImpl.insertTaken i first src blocked w = (.ret n, w')) :
    Ages w.slots w'.slots ∧ w'.frames = w.frames := by
  obtain ⟨w₁, sl, htake, hframes, -, hplaced⟩ := SignalImpl.insertTaken_effect run
  obtain ⟨hages, hframes'⟩ := hplaced.ages rfl
  exact ⟨(SlotBase.takeRep_ages htake).1.trans hages, hframes'.trans hframes⟩

theorem SignalImpl.enterSweep_removing {it : Option SlotAddr}
    (run : SignalImpl.enterSweep i w = (.ret it, w')) (hr : w.Removing) : w'.Removing := by
  obtain ⟨self, -, -, rfl⟩ := SignalImpl.enterSweep_effect run
  exact hr.push (.refl _) rfl

theorem SignalBase.letGo_removing {old : Option Addr}
    (run : SignalBase.letGo old w = (.ret old, w')) (hr : w.Removing) : w'.Removing := by
  obtain ⟨-, rfl⟩ := SignalBase.letGo_effect run
  cases old with
  | none => exact hr
  | some j =>
    simp only [Option.elim, World.letGo]
    split
    · exact hr.push (.refl _) rfl
    · exact hr.push (.refl _) rfl

theorem SignalStep.removing (h : SignalStep w w') (linked : w.Linked) (hr : w.Removing) :
    w'.Removing := by
  cases h with
  | insertBuilt user owned functor run =>
    obtain ⟨ages, frames⟩ := SignalImpl.insertBuilt_ages run
    exact hr.same ages frames
  | insertTaken user owned source told run =>
    obtain ⟨ages, frames⟩ := SignalImpl.insertTaken_ages run
    exact hr.same ages frames
  | new => exact hr
  | impl run =>
    obtain ⟨-, rfl⟩ | ⟨-, -, rfl⟩ := SignalBase.impl_effect run
    · exact hr
    · exact hr
  | copyConstruct handle run =>
    obtain ⟨i, w₁, hrun, rfl, rfl⟩ := SignalBase.copyConstruct_effect run
    obtain ⟨-, rfl⟩ | ⟨-, -, rfl⟩ := SignalBase.impl_effect hrun
    · exact hr
    · exact hr
  | moveConstruct run =>
    obtain ⟨rfl, rfl⟩ := SignalBase.moveConstruct_effect run
    exact hr
  | replaceImpl calm owned run =>
    obtain ⟨-, hgo⟩ := SignalBase.replaceImpl_effect run
    exact SignalBase.letGo_removing hgo hr
  | dropHandle calm run =>
    obtain ⟨-, hgo⟩ := SignalBase.dropHandle_effect run
    exact SignalBase.letGo_removing hgo hr
  | endRelease top done => exact hr.pop top fun _ => rfl
  | endDispose top unowned idle alive empty => exact hr
  | endCleanup top => exact World.Removing.pop (w := w.setRecord _ none) hr top fun _ => rfl
  | enterClear calm run =>
    obtain ⟨self, -, -, -, -, -, rfl⟩ := SignalImpl.enterClear_effect run
    exact hr.push (.refl _) rfl
  | clearNext top impl next severed => exact hr.setTop top fun _ => by simp [Frame.erasing]
  | recordCleared top => exact hr
  | restoreDeferred top impl => exact hr
  | @clearErase i saved below self s rest sl top impl slots alive =>
    refine hr.unlink alive linked impl (slots ▸ List.mem_cons_self) rfl (fun j n he _ => ?_) ?_
    · exact he.setTop (w := w.unlinkDying i self s sl) top (by simp [Frame.erasing])
    · exact ⟨_, List.mem_cons_self, by simp [Frame.erasing]⟩
  | @clearErased i saved below s top gone =>
    refine hr.replace (.refl _) top (fun j n hn heq => ?_) (.inr ⟨_, congrArg (_ :: ·) ?_⟩)
    · obtain ⟨-, rfl⟩ : i = j ∧ s = n := by simpa [Frame.erasing] using heq
      exact hn gone
    · exact congrArg List.tail top
  | leaveClear top impl cleared quiet =>
    exact World.Removing.pop (w := w.decrement _ _) hr top fun _ => by simp [Frame.erasing]
  | leaveClearSweep top impl cleared sweeps owned run =>
    refine SignalImpl.enterSweep_removing run ?_
    exact World.Removing.pop (w := w.decrement _ _) hr top fun _ => by simp [Frame.erasing]
  | sweepSkip top impl next keep => exact hr.setTop top fun _ => by simp [Frame.erasing]
  | @sweepErase i it it' below self sl top impl next element empty alive =>
    refine hr.unlink alive linked impl element rfl (fun j n he _ => ?_) ?_
    · exact he.setTop (w := w.unlinkDying i self it sl) top (by simp [Frame.erasing])
    · exact ⟨_, List.mem_cons_self, by simp [Frame.erasing]⟩
  | @sweepErased i it it' below top gone =>
    refine hr.replace (.refl _) top (fun j n hn heq => ?_) (.inr ⟨_, congrArg (_ :: ·) ?_⟩)
    · obtain ⟨-, rfl⟩ : i = j ∧ it = n := by simpa [Frame.erasing] using heq
      exact hn gone
    · exact congrArg List.tail top
  | leaveHolder top holder impl quiet => exact hr.leaveHolder top holder
  | leaveHolderSweep top holder impl sweeps run =>
    exact SignalImpl.enterSweep_removing run (hr.leaveHolder top holder)
  | startRelease top => exact hr.setTop top fun _ => rfl

theorem EmissionStep.removing (h : EmissionStep w w') (hr : w.Removing) : w'.Removing := by
  cases h with
  | start calm owned run =>
    obtain ⟨self, -, -, -, rfl⟩ := Emission.start_effect run
    exact hr.push (.create fun h => by cases h) rfl
  | skip top inside arrived slot uncallable impl next => exact hr.setTop top fun _ => rfl
  | beginCall top inside arrived callable => exact hr.setTop top fun _ => rfl
  | endCall v top invoking => exact hr.setTop top fun _ => rfl
  | advance top invoked impl next => exact hr.setTop top fun _ => rfl
  | finish top ends impl element quiet => exact hr.finish top
  | finishSweep top ends impl element sweeps run =>
    exact SignalImpl.enterSweep_removing run (hr.finish top)

theorem TrackableStep.removing (h : TrackableStep w w') (hr : w.Removing) : w'.Removing := by
  cases h with
  | construct => exact hr
  | beginDestroy alive client => exact hr
  | endDestroy alive client notified => exact hr
  | notifyNone alive list => exact hr
  | beginNotify alive list idle reason calm => exact hr.push (.refl _) rfl
  | skip top alive list element inactive => exact hr.setTop top fun _ => rfl
  | notifyWeak top alive list element func weak =>
    exact World.Removing.setTop (w := w.setWeak _ _) hr top fun _ => rfl
  | endNotify top alive list done =>
    exact World.Removing.pop (w := (w.setTrackable _ _).record _) hr top fun _ => rfl

theorem WeakStep.removing (h : WeakStep w w') (hr : w.Removing) : w'.Removing := by
  cases h with
  | refer s => exact hr
  | construct user source run =>
    obtain ⟨-, tks, ign, rfl, -⟩ := WeakRawPtr.construct_effect run
    exact hr
  | assign user connection run =>
    obtain ⟨mid, tks, ign, self, p, -, -, rfl, -⟩ := WeakRawPtr.assign_effect run
    exact hr
  | destroy user connection run =>
    obtain ⟨tks, self, -, rfl, -⟩ := WeakRawPtr.destroy_effect run
    exact hr

theorem Step.removing (h : Step w w') (linked : w.Linked) (hr : w.Removing) : w'.Removing := by
  cases h with
  | command script wellFormed => exact hr
  | trackable h => exact h.removing hr
  | weak h => exact h.removing hr
  | slot h => exact h.removing linked hr
  | signal h => exact h.removing linked hr
  | emission h => exact h.removing hr

theorem Steps.removing {script : List (Cmd V)} (h : Steps ({ script } : World V) w) :
    w.Removing := by
  -- along the run, from the empty world
  induction h with
  | refl =>
    intro n sl i hsl
    cases hsl
  | tail hsteps hstep ih =>
    have hw : Sound _ := Steps.sound hsteps (.initial script)
    exact hstep.removing hw.linked ih

/-! ## Iterators -/

theorem following_of_mem {c : SlotAddr} {l : List SlotAddr} (hc : c ∈ l) :
    following c l ≠ none := by
  induction l with
  | nil => cases hc
  | cons x xs ih =>
    unfold following
    split
    · exact Option.some_ne_none _
    · rename_i hne
      exact ih ((List.mem_cons.mp hc).resolve_left (Ne.symm hne))

theorem World.Traversed.next (ht : w.Traversed i) (hw : Sound w) (impl : w.impls i = some self)
    {e : Emission V} (he : .emission e ∈ w.users i) (hne : e.it ≠ e.placeholder) :
    ∃ it, following e.it self.slots = some (some it) := by
  obtain ⟨x, hx, hspan⟩ := ht.spans e he
  obtain rfl := Option.some.inj (hx.symm.trans impl)
  obtain ⟨passed, rest, hrange, -⟩ := (ht.progress e he).position
  obtain ⟨it, -, -, hnext⟩ := Emission.range_next hspan (hw.linked.nodup i x impl) hrange hne
  exact ⟨it, hnext⟩

/-- No iterator refers to an element that has been erased. -/
theorem Steps.cursor_kept {script : List (Cmd V)} (h : Steps ({ script } : World V) w)
    (hs : ∀ i, w.Shallow i) : ¬Stuck .cursor w := by
  have ht (i : Addr) : w.Tracked i := h.tracked (.initial script i) (hs i)
  intro stuck
  cases stuck with
  | @emission _ e below top phase inside lost =>
    have he := Frame.mem_users top (i := e.impl) (by simp [Frame.execOn])
    obtain ⟨self, impl, -⟩ := (ht e.impl).traversed.spans e he
    rcases lost with hnone | ⟨x, hx, hlost⟩
    · have hm := (ht e.impl).traversed.iterator impl he
      obtain ⟨sl, hsl, -⟩ := (ht e.impl).sound.linked.element _ self _ impl hm
      rw [hnone] at hsl
      cases hsl
    · obtain ⟨it, hnext⟩ := (ht e.impl).traversed.next (ht e.impl).sound hx he inside
      exact hlost it hnext
  | @placeholder _ e below self completed top ends impl lost =>
    have he := Frame.mem_users top (i := e.impl) (by simp [Frame.execOn])
    obtain ⟨x, hx, hspan⟩ := (ht e.impl).traversed.spans e he
    obtain rfl := Option.some.inj (hx.symm.trans impl)
    apply lost
    apply hspan.subset
    exact List.mem_append_right _ List.mem_cons_self
  | @sweep _ i it below self top impl lost =>
    have hm := Frame.mem_users top (i := i) (by simp [Frame.execOn])
    exact following_of_mem ((ht i).iterators self impl _ hm it rfl) lost
  | @clear _ i it during saved below self top impl lost =>
    have hm := Frame.mem_users top (i := i) (by simp [Frame.execOn])
    exact following_of_mem ((ht i).iterators self impl _ hm it rfl) lost

theorem Steps.iter_kept {script : List (Cmd V)} (h : Steps ({ script } : World V) w)
    (hs : ∀ i, w.Shallow i) : ¬Stuck .iter w := by
  intro stuck
  cases stuck with
  | @erase _ r rep d si self alive parent cleanup record owned impl idle lost =>
    have ht := h.tracked (.initial script si.self) (hs _)
    obtain ⟨si', sl, hrecord, hsl, -, howner⟩ :=
      ht.sound.linked.child r rep d alive ⟨parent, cleanup⟩
    obtain rfl := Option.some.inj (record.symm.trans hrecord)
    cases hdying : sl.dying with
    | false =>
      obtain ⟨x, himpl, hm⟩ := ht.sound.linked.listed _ _ sl hsl howner hdying
      obtain rfl := Option.some.inj (impl.symm.trans himpl)
      exact lost hm
    | true =>
      -- whoever has erased the element still holds the execution count
      obtain ⟨f, hf, herasing⟩ := h.removing _ sl _ hsl howner hdying
      have hnil := ht.discipline.counted.users_eq_nil impl (ht.fits (hs _) self impl) idle
      have hm : f ∈ w.users si.self := List.mem_filter.mpr ⟨hf, Frame.erasing_execOn herasing⟩
      rw [hnil] at hm
      cases hm

/-- Is this event anything but the start of an emission, of any list, that is too deep? -/
def Event.inRange : Event → Bool
  | .started _ _ k => decide (k + 1 < 2 ^ 15)
  | _ => true

theorem World.shallow_of_inRange (h : w.log.all Event.inRange = true) (i : Addr) :
    w.Shallow i := by
  intro m k hm
  exact of_decide_eq_true (List.all_eq_true.mp h _ hm)

/-- No list iterator dangles: an emission, `sweep()` and `clear()` always find the element after the
one that they are at, an emission finds its placeholder, and a slot that is disconnected while no
function runs on its signal is in the list. -/
theorem Steps.never_lost {script : List (Cmd V)} (h : Steps ({ script } : World V) w)
    (hs : ∀ i, w.Shallow i) : ¬Stuck .cursor w ∧ ¬Stuck .iter w :=
  ⟨h.cursor_kept hs, h.iter_kept hs⟩

theorem never_lost_disconnected : ¬Stuck .cursor duringEmission ∧ ¬Stuck .iter duringEmission := by
  obtain ⟨script, h⟩ := duringEmission_steps
  apply h.never_lost
  apply World.shallow_of_inRange
  decide +kernel

end Sigc
