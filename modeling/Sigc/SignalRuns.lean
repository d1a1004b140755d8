import Sigc.SlotRuns
import Sigc.ListSteps

/-!
# The functions of signals

`sweep()`, `clear()`, the erasure of a disconnected slot, and what connects a slot.
-/

namespace Sigc

open Reasoning Prog

variable {V : Type} {T : World V → Prop} {u : Env V} {w w' w₀ w₁ : World V}

theorem mem_of_following {x : SlotAddr} {l : List SlotAddr} {y : Option SlotAddr}
    (h : following x l = some y) : x ∈ l := by
  induction l with
  | nil => cases h
  | cons z zs ih =>
    unfold following at h
    split at h
    · rename_i hz
      exact hz ▸ List.mem_cons_self
    · exact List.mem_cons_of_mem z (ih h)

theorem following_mem {x y : SlotAddr} {l : List SlotAddr} (h : following x l = some (some y)) :
    y ∈ l := by
  induction l with
  | nil => cases h
  | cons z zs ih =>
    unfold following at h
    split at h
    · exact List.mem_cons_of_mem z (List.mem_of_head? (Option.some.inj h))
    · exact List.mem_cons_of_mem z (ih h)

theorem SlotBase.disconnect_ends (hu : u.Spec T) {cleanup : Addr → M V Unit}
    (hc : Severs T cleanup) {s : SlotAddr} (hw : Sound w)
    (may : ∀ sl r, w.slots s = some sl → sl.rep = some r → w.MaySever r) :
    Ends T w (disconnect u cleanup s) w fun _ w' => Goes w w' ∧ w'.Disconnected s := by
  unfold disconnect
  refine .load rfl fun sl hsl => ?_
  cases hr : sl.rep with
  | none =>
    refine ⟨.refl w, fun sl' i r rep hsl' _ hr' _ => ?_⟩
    rw [← Option.some.inj (hsl.symm.trans hsl'), hr] at hr'
    cases hr'
  | some r =>
    refine (SlotRep.disconnect_ends hu hc (.now hw (may sl r hsl hr))).mono fun _ w' h =>
      ⟨⟨h.1, h.2.1⟩, fun sl' i q rep hsl' ho hq hrep => ?_⟩
    cases s with
    | placeholder d =>
      rw [(hw.placeholder d sl hsl).1] at hr
      cases hr
    | object a =>
      obtain ⟨sl₀, hsl₀, howner, -, hkeep⟩ :=
        (h.1.proceeds hw).extension.slots.old (hw.slots a sl hsl) hsl'
      obtain rfl := Option.some.inj (hsl.symm.trans hsl₀)
      have hq' := hkeep i r (howner.symm.trans ho) hr
      exact h.2.2 rep (Option.some.inj (hq'.symm.trans hq) ▸ hrep)

namespace SignalImpl

/-- `++it`, where the rest of the function is `k`. -/
theorem next_ends {β : Type} {i : Addr} {n : SlotAddr} {k : Option SlotAddr → M V β}
    {Q : β → World V → Prop}
    (h : ∀ self it', w₁.impls i = some self → following n self.slots = some it' →
      Ends T w (k it') w₁ Q)
    (lost : ∀ self, w₁.impls i = some self → following n self.slots = none →
      Halts T w (.fault .cursor) w₁) : Ends T w (next i n >>= k) w₁ Q := by
  unfold next
  refine Ends.bind (Q := fun it' w' => w' = w₁ ∧ ∃ self, w₁.impls i = some self ∧
    following n self.slots = some it') (.run (loadSlots_straight i) fun l w₂ hl => ?_) ?_
  · obtain ⟨self, hself, rfl, -, rfl⟩ := loadSlots_eq_ret.mp hl
    unfold Ends
    rw [wp_deref]
    exact ⟨fun it' hit' => ⟨rfl, self, hself, hit'⟩, lost self hself⟩
  · rintro it' _ ⟨rfl, self, hself, hit'⟩
    exact h self it' hself hit'

theorem unlink_ends {β : Type} {i : Addr} {n : SlotAddr} {f : Fault} {k : Unit → M V β}
    {Q : β → World V → Prop}
    (h : ∀ self, w₁.impls i = some self → n ∈ self.slots →
      Ends T w (k ()) (w₁.setImpl i (some { self with slots := self.slots.erase n })) Q)
    (lost : ∀ self, w₁.impls i = some self → n ∉ self.slots → Halts T w (.fault f) w₁) :
    Ends T w (unlink f i n >>= k) w₁ Q := by
  unfold unlink
  refine Ends.bind (Q := fun _ w' => ∃ self, w₁.impls i = some self ∧ n ∈ self.slots ∧
    w' = w₁.setImpl i (some { self with slots := self.slots.erase n }))
    (.run (loadSlots_straight i) fun l w₂ hl => ?_) ?_
  · obtain ⟨self, hself, rfl, -, rfl⟩ := loadSlots_eq_ret.mp hl
    split
    · rename_i hn
      refine .straight (setSlots_straight _ _) fun _ w₃ hset => ?_
      obtain ⟨self', hself', rfl⟩ := setSlots_eq_ret.mp hset
      obtain rfl := Option.some.inj (hself.symm.trans hself')
      exact ⟨self, hself, hn, rfl⟩
    · rename_i hn
      exact lost self hself hn
  · rintro _ _ ⟨self, hself, hn, rfl⟩
    exact h self hself hn

/-! ## The end of a holder -/

theorem release_ends (hu : u.Spec T) {i : Addr} {b : List (Frame V)} (hw : Sound w)
    (top : w.frames = .releasing i :: b) :
    Ends T w (release u i) w fun _ w' => Steps w w' ∧ w'.frames = b := by
  unfold release
  refine .read (Ends.bind (Q := fun _ w' => Goes w w' ∧ (w'.owned i = true ∨ w'.impls i = none))
    ?_ fun _ w' h => ?_)
  · split
    · rename_i ho
      exact ⟨.refl w, .inl ho⟩
    · rename_i ho
      refine (hu.dispose w i b hw top (by simpa using ho)).bind fun _ w' h => ?_
      exact ⟨h.1, .inr h.2⟩
  · refine ⟨h.1.1.tail (.signal (.endRelease (h.1.2.trans top) h.2)), ?_⟩
    simp [World.pop, h.1.2, top]

/-- What `sweep()` does with `n` rounds of recursion left.  How it came to be called is left
open: its caller has been at work since `w₀`. -/
def SweepEnds (T : World V → Prop) (u : Env V) (n : Nat) : Prop :=
  ∀ (w₀ w : World V) (i : Addr), Sound w₀ →
    (w.owned i = false → Halts T w₀ (.fault .badWeakPtr) w) →
    (w.owned i = true → ∀ it w', enterSweep i w = (.ret it, w') → Steps w₀ w') →
    Ends T w₀ (sweep u n i) w fun _ w' =>
      w.owned i = true ∧ Steps w₀ w' ∧ w'.frames = w.frames

theorem leaveHolder_ends (hu : u.Spec T) {n : Nat} (hsweep : SweepEnds T u n) {i : Addr}
    {f : Frame V} {below : List (Frame V)} (hw : Sound w₀) (top : w.frames = f :: below)
    (quiet : ∀ self, w.impls i = some self → self.sweepsNext = false →
      Steps w₀ ((w.decrement i self).setTop (.holding i)))
    (sweeps : ∀ self, w.impls i = some self → self.sweepsNext = true → ∀ it w',
      enterSweep i ((w.decrement i self).setTop (.holding i)) = (.ret it, w') → Steps w₀ w') :
    Ends T w₀ (leaveHolder u (sweep u n) i) w fun _ w' => Steps w₀ w' ∧ w'.frames = below := by
  unfold leaveHolder
  refine .run (decrementExec_straight i) fun _ w₁ hdec => .modify ?_
  obtain ⟨self, himpl, rfl⟩ := decrementExec_eq_ret.mp hdec
  have htop : ((w.decrement i self).setTop (.holding i)).frames = .holding i :: below := by
    simp [World.decrement, World.setTop, World.setImpl, top]
  have hmust : mustSweep i ((w.decrement i self).setTop (.holding i)) =
      (.ret self.sweepsNext, (w.decrement i self).setTop (.holding i)) := by
    simp [mustSweep, loadImpl, deref, World.decrement, World.setTop, World.setImpl,
      SignalImpl.sweepsNext, bind, Prog.bind, Pure.pure]
  refine .run (.bind (.loadImpl i) fun _ => .pure _) fun must w₂ hrun => ?_
  obtain ⟨rfl, rfl⟩ : self.sweepsNext = must ∧ (w.decrement i self).setTop (.holding i) = w₂ := by
    simpa using hmust.symm.trans hrun
  refine Ends.bind (Q := fun _ w' => Steps w₀ w' ∧ w'.frames = .holding i :: below) ?_
    fun _ w₃ h₃ => .modify ?_
  · split
    · rename_i hsw
      refine (hsweep w₀ _ i hw (fun ho => ?_) fun _ => sweeps self himpl hsw).mono fun _ w' h =>
        ⟨h.2.1, h.2.2.trans htop⟩
      rw [World.owned_of_frame (htop ▸ List.mem_cons_self) (by simp [Frame.owns])] at ho
      cases ho
    · rename_i hsw
      exact ⟨quiet self himpl (by simpa using hsw), htop⟩
  · have hs₃ := h₃.1.tail (.signal (.startRelease h₃.2))
    refine ((release_ends hu (hs₃.proceeds hw).sound (b := below) ?_).after hs₃).mono
      fun _ w' h => ⟨hs₃.trans h.1, h.2⟩
    simp [World.setTop, h₃.2]

/-! ## `sweep()` -/

/-- An element is destroyed that has been taken out of its list. -/
theorem destroyElement_ends (hu : u.Spec T) {s : SlotAddr} (hw : Sound w₀) (calm : w.Calm)
    (unlinked : ∀ sl, w.slots s = some sl →
      Steps w₀ (w.setSlot s (some { sl with dying := true }))) :
    Ends T w₀ (SlotBase.destroy u s) w fun _ w' => w'.frames = w.frames ∧ w'.slots s = none ∧
      ∃ w₁, Steps w₀ w₁ ∧ Steps w₁ w' ∧ w₁.reps = w.reps := by
  unfold SlotBase.destroy
  refine .load rfl fun sl hsl => .modify ?_
  have hs := unlinked sl hsl
  refine ((SlotBase.destroyBody_ends hu (hs.proceeds hw).sound (calm.of_frames rfl)
    (Function.update_self _ _ _)
    rfl).after hs).mono fun _ w' h => ?_
  exact ⟨h.1.2, h.2, _, hs, h.1.1, rfl⟩

theorem sweepLoop_ends (hu : u.Spec T) (hT : ∀ w, T w) {i : Addr} {below : List (Frame V)}
    (hw : Sound w₀) (n : Nat) :
    ∀ {it w}, Steps w₀ w → w.frames = .sweep i it none :: below →
      Ends T w₀ (sweepLoop u i n it) w fun _ w' =>
        Steps w₀ w' ∧ w'.frames = .sweep i none none :: below := by
  -- on the rounds left, the iterator being that of the frame on top
  induction n with
  | zero => exact fun {it w} _ _ => hT w
  | succ n ih =>
    intro it w hs top
    cases it with
    | none => exact ⟨hs, top⟩
    | some it =>
      refine next_ends (fun self it' himpl hnext => ?_) fun self himpl hlost =>
        .stuck hs (.sweep top himpl hlost)
      refine .run (SlotBase.empty_straight it) fun b w₁ hempty => ?_
      obtain ⟨rfl, hb⟩ := SlotBase.empty_effect hempty
      split
      · rename_i hbt
        refine unlink_ends (fun self' himpl' hmem => .modify ?_) fun self' himpl' hlost => ?_
        · obtain rfl := Option.some.inj (himpl.symm.trans himpl')
          refine Ends.bind (destroyElement_ends hu hw (.of_top rfl rfl) fun sl hsl => ?_)
            fun _ w₂ h₂ => .modify ?_
          · exact hs.tail (.signal (.sweepErase top himpl hnext hmem (hb.mp hbt) hsl))
          obtain ⟨hf₂, hgone, w₃, hs₃, hs₂, -⟩ := h₂
          have htop₂ : w₂.frames = .sweep i it' (some it) :: below := by
            rw [hf₂]
            simp [World.setTop, World.setImpl, top]
          exact ih ((hs₃.trans hs₂).tail (.signal (.sweepErased htop₂ hgone)))
            (by simp [World.setTop, htop₂])
        · obtain rfl := Option.some.inj (himpl.symm.trans himpl')
          exact absurd (mem_of_following hnext) hlost
      · rename_i hbf
        exact .modify (ih (hs.tail (.signal (.sweepSkip top himpl hnext fun h => hbf (hb.mpr h))))
          (by simp [World.setTop, top]))

theorem sweep_ends (hu : u.Spec T) (hT : ∀ w, T w) (n : Nat) : SweepEnds T u n := by
  induction n with
  | zero => exact fun _ w _ _ _ _ => hT w
  | succ n ih =>
    intro w₀ w i hw hun henter
    unfold sweep
    refine .read ?_
    split
    · rename_i ho
      refine .run (enterSweep_straight i) fun it w₁ hrun => ?_
      have hs₁ := henter ho it w₁ hrun
      obtain ⟨self, himpl, rfl, rfl⟩ := enterSweep_effect hrun
      refine (sweepLoop_ends hu hT hw u.fuel hs₁ rfl).bind fun _ w₂ h₂ => ?_
      exact (leaveHolder_ends hu ih hw h₂.2
        (fun self' himpl' hq => h₂.1.tail (.signal (.leaveHolder h₂.2 (.inl rfl) himpl' hq)))
        fun self' himpl' hsw it' w' hrun' => h₂.1.tail (.signal (.leaveHolderSweep h₂.2
          (.inl rfl) himpl' hsw hrun'))).mono fun _ w' h => ⟨ho, h⟩
    · rename_i ho
      exact hun (by simpa using ho)

/-! ## A disconnected slot -/

/-- The slot of a list is erased: the rest of the function that has severed it. -/
theorem eraseOrDefer_ends (hu : u.Spec T) (hT : ∀ w, T w) {r d : Addr} {rep : SlotRep}
    {si : SelfAndIter} (h : Severing w₀ r w) (alive : w.reps r = some rep)
    (parent : rep.parent = some d)
    (cleanup : rep.cleanup = some .notifySelfAndIterOfInvalidatedSlot)
    (record : w.records d = some si) (owned : w.owned si.self = true) :
    Ends T w₀ (eraseOrDefer u si) ((w.sever r rep).push (.cleanup d)) fun _ w' =>
      w'.frames = .cleanup d :: w.frames ∧ Steps w₀ (w'.setRecord d none).pop ∧
        w'.Silent r := by
  have hr := h.sound.reps r rep alive
  unfold eraseOrDefer
  refine .load rfl fun self himpl => ?_
  split
  -- No function runs on the list: a holder, the erase, and perhaps a sweep when the holder goes.
  · rename_i hidle
    refine .run (referenceExec_straight _) fun _ w₁ href => .modify ?_
    obtain ⟨self', himpl', rfl⟩ := referenceExec_eq_ret.mp href
    obtain rfl := Option.some.inj (himpl.symm.trans himpl')
    refine unlink_ends (fun self' himpl' hmem => ?_) fun self' himpl' hlost => ?_
    · obtain rfl : { self with execCount := self.execCount + 1 } = self' := by
        simpa [World.setImpl, World.push] using himpl'
      refine Ends.bind (Q := fun _ w' => Steps w₀ w' ∧ w'.Silent r ∧ w'.slots si.iter = none ∧
        w'.frames = .erase si.self si.iter :: .cleanup d :: w.frames ∧ r < w'.next) ?_
          fun _ w₂ h₂ => ?_
      · refine (destroyElement_ends hu h.begun (.of_top rfl rfl) fun sl hsl => ?_).mono
          fun _ w₂ h₂ => ?_
        · have hstep := h.step _ (.erase alive parent cleanup record owned himpl hidle hmem hsl
            (h.may.imp_right fun hno => (hno rep d alive parent).2 si record))
          simpa [World.unlinkDying, World.push, World.setImpl] using hstep
        · obtain ⟨hf₂, hgone, w₃, hs₃, hs₂, hreps⟩ := h₂
          have hsound₃ := hs₃.sound h.begun
          -- The erase runs ~slot_base(), in the course of which other code may run: the rep stays
          -- silent.
          have hlt : r < w₃.next := hsound₃.reps r { rep with call := false, parent := none } <| by
            rw [hreps]
            exact Function.update_self _ _ _
          have hadv := hs₂.proceeds hsound₃
          refine ⟨hs₃.trans hs₂, hadv.extension.silent hlt ?_, hgone, hf₂,
            Nat.lt_of_lt_of_le hlt hadv.extension.next⟩
          unfold World.Silent
          rw [hreps]
          exact w.silent_sever r rep
      -- The holder goes: unreference_exec(), and sweep() if something has been deferred meanwhile.
      · obtain ⟨hs₂, hsilent, hgone, htop, hlt⟩ := h₂
        have hw₂ := hs₂.sound h.begun
        have hholder : ∃ n, (Frame.erase si.self si.iter : Frame V) = .erase si.self n ∧
            w₂.slots n = none := ⟨si.iter, rfl, hgone⟩
        refine ((leaveHolder_ends hu (sweep_ends hu hT u.fuel) hw₂ htop
          (fun self' himpl' hq => .single (.signal (.leaveHolder htop (.inr hholder) himpl' hq)))
          fun self' himpl' hsw it' w' hrun => .single (.signal (.leaveHolderSweep htop
            (.inr hholder) himpl' hsw hrun))).after hs₂).mono fun _ w₃ h₃ => ?_
        refine ⟨h₃.2, (hs₂.trans h₃.1).tail (.signal (.endCleanup h₃.2)), ?_⟩
        exact (h₃.1.proceeds hw₂).extension.silent hlt hsilent
    · obtain rfl : { self with execCount := self.execCount + 1 } = self' := by
        simpa [World.setImpl, World.push] using himpl'
      -- The element is not in the list: the erase would be undefined.
      exact .stuck .refl (h.stuck (.erase alive parent cleanup record owned himpl hidle hlost))
  -- Within another function of the list the removal is deferred.
  · rename_i hbusy
    refine .straight (setDeferred_straight _ _) fun _ w' hset => ?_
    obtain ⟨self', himpl', rfl⟩ := setDeferred_eq_ret.mp hset
    obtain rfl := Option.some.inj (himpl.symm.trans himpl')
    exact ⟨rfl, h.step _ (.defer alive parent cleanup record owned himpl hbusy),
      w.silent_sever r rep⟩

theorem notifySelfAndIterOfInvalidatedSlot_severs (hu : u.Spec T) (hT : ∀ w, T w) :
    Severs T (notifySelfAndIterOfInvalidatedSlot u) := by
  intro w₀ w r rep d h hrep hparent hcleanup
  unfold notifySelfAndIterOfInvalidatedSlot
  refine .load rfl fun si hsi => .modify (.read ?_)
  have hrecord : w.records d = some si := hsi
  have howned : ((w.sever r rep).push (.cleanup d)).owned si.self = w.owned si.self := by
    simp [World.owned, World.push, World.sever, World.record, World.setRep, Frame.owns]
  rw [howned]
  refine Ends.bind (Q := fun _ w' => w'.frames = .cleanup d :: w.frames ∧
    Steps w₀ (w'.setRecord d none).pop ∧ w'.Silent r) ?_ fun _ w' h' => ?_
  · split
    · rename_i ho
      exact eraseOrDefer_ends hu hT h hrep hparent hcleanup hrecord ho
    · rename_i ho
      exact ⟨rfl, h.step _ (.expired hrep hparent hcleanup hrecord (by simpa using ho)),
        w.silent_sever r rep⟩
  · exact ⟨h'.2.1, by simp [World.pop, World.setRecord, h'.1], h'.2.2⟩

/-! ## `clear()` -/

section Clear

variable {i : Addr} {during saved : Bool} {below : List (Frame V)}

/-- An element of the list that `clear()` is working on may be disconnected. -/
theorem maySever_element (hw : Sound w) {it : SlotAddr} {self : SignalImpl}
    (top : w.frames = .clear i (some it) none during saved :: below)
    (impl : w.impls i = some self) (element : it ∈ self.slots) (sl : SlotBase) (r : Addr)
    (slot : w.slots it = some sl) (hr : sl.rep = some r) : w.MaySever r := by
  refine .inr fun rep d hrep hparent => ?_
  obtain ⟨sl', hsl', howner, -⟩ := Linkage.element hw.linked i self it impl element
  obtain rfl := Option.some.inj (slot.symm.trans hsl')
  have hcleanup := Linkage.parent hw.linked it sl i r rep slot howner hr hrep (by simp [hparent])
  refine ⟨hcleanup, fun si hsi => ?_⟩
  obtain ⟨si', sl', hsi', hslot', hr', howner'⟩ :=
    Linkage.child hw.linked r rep d hrep ⟨hparent, hcleanup⟩
  obtain rfl := Option.some.inj (hsi.symm.trans hsi')
  have hit := Linkage.unique hw.linked _ _ _ _ r slot hr hslot' hr'
  obtain rfl := Option.some.inj (slot.symm.trans (hit ▸ hslot'))
  obtain rfl : i = si.self := by
    rw [howner] at howner'
    cases howner'
    rfl
  rw [← hit]
  exact ⟨during, saved, below, top⟩

theorem disconnectLoop_ends (hu : u.Spec T) (hT : ∀ w, T w) (hw : Sound w₀) (n : Nat) :
    ∀ {it w}, Steps w₀ w → w.frames = .clear i it none during saved :: below →
      (∀ n, it = some n → ∃ self, w.impls i = some self ∧ n ∈ self.slots) →
      Ends T w₀ (disconnectLoop u i during saved n it) w fun _ w' =>
        Steps w₀ w' ∧ w'.frames = .clear i none none during saved :: below := by
  -- on the rounds left: where `++it` is defined, the iterator is at an element again, or at the end
  induction n with
  | zero => exact fun {it w} _ _ _ => hT w
  | succ n ih =>
    intro it w hs top inside
    cases it with
    | none => exact ⟨hs, top⟩
    | some it =>
      obtain ⟨self, himpl, hmem⟩ := inside it rfl
      refine Ends.call hs (SlotBase.disconnect_ends hu
        (notifySelfAndIterOfInvalidatedSlot_severs hu hT) (hs.proceeds hw).sound
        (maySever_element (hs.sound hw) top himpl hmem)) fun _ w₁ h₁ => ?_
      have hs₁ := hs.trans h₁.1.1
      have top₁ := h₁.1.2.trans top
      refine next_ends (fun self it' himpl hnext => .modify ?_) fun self himpl hlost =>
        .stuck hs₁ (.clear top₁ himpl hlost)
      refine ih (hs₁.tail (.signal (.clearNext top₁ himpl hnext h₁.2)))
        (by simp [World.setTop, top₁]) ?_
      rintro n rfl
      exact ⟨self, himpl, following_mem hnext⟩

theorem clearSlots_ends (hu : u.Spec T) (hT : ∀ w, T w) (hw : Sound w₀) (n : Nat) :
    ∀ {w}, Steps w₀ w → w.frames = .clear i none none false saved :: below →
      Ends T w₀ (clearSlots u i saved n) w fun _ w' =>
        Steps w₀ w' ∧ w'.frames = .clear i none none false saved :: below ∧
          ∀ self, w'.impls i = some self → self.slots = [] := by
  -- on the rounds left; a round takes the first element out and destroys it
  induction n with
  | zero => exact fun {w} _ _ => hT w
  | succ n ih =>
    intro w hs top
    refine .run (loadSlots_straight i) fun l w₁ hl => ?_
    obtain ⟨self, himpl, rfl, -, rfl⟩ := loadSlots_eq_ret.mp hl
    cases hslots : self.slots with
    | nil =>
      refine ⟨hs, top, fun self' himpl' => ?_⟩
      rw [← Option.some.inj (himpl.symm.trans himpl'), hslots]
    | cons s rest =>
      refine .run (setSlots_straight _ _) fun _ w₂ hset => .modify ?_
      obtain ⟨self', himpl', rfl⟩ := setSlots_eq_ret.mp hset
      obtain rfl := Option.some.inj (himpl.symm.trans himpl')
      refine Ends.bind (destroyElement_ends hu hw (.of_top rfl rfl) fun sl hsl => ?_)
        fun _ w₃ h₃ => .modify ?_
      · have hstep := hs.tail (.signal (.clearErase top himpl hslots hsl))
        rwa [World.unlinkDying, hslots, List.erase_cons_head] at hstep
      · obtain ⟨hf₃, hgone, w₄, hs₄, hs₃, -⟩ := h₃
        have top₃ : w₃.frames = .clear i none (some s) false saved :: below := by
          rw [hf₃]
          simp [World.setTop, World.setImpl, top]
        exact ih ((hs₄.trans hs₃).tail (.signal (.clearErased top₃ hgone)))
          (by simp [World.setTop, top₃])

/-- The last statements of `clear()`. -/
theorem leaveClear_ends (hu : u.Spec T) (hT : ∀ w, T w) (hw : Sound w₀)
    (hs : Steps w₀ w) (top : w.frames = .clear i none none during saved :: below)
    (cleared : ∀ self, w.impls i = some self → during = false → self.slots = []) :
    Ends T w₀ (decrementExec i >>= fun _ => Prog.modify (·.pop) >>= fun _ => mustSweep i >>=
      fun must => if must then sweep u u.fuel i else pure ()) w fun _ w' =>
        Steps w₀ w' ∧ w'.frames = below ∧ (w.owned i = true ∨
          ∃ self, w.impls i = some self ∧ w' = (w.decrement i self).pop) := by
  refine .run (decrementExec_straight i) fun _ w₁ hdec => .modify ?_
  obtain ⟨self, himpl, rfl⟩ := decrementExec_eq_ret.mp hdec
  have hbelow : ((w.decrement i self).pop).frames = below := by
    simp [World.decrement, World.pop, World.setImpl, top]
  have howned : ((w.decrement i self).pop).owned i = w.owned i := by
    simp [World.owned, World.decrement, World.pop, World.setImpl, top, Frame.owns]
  have hmust : mustSweep i ((w.decrement i self).pop) =
      (.ret self.sweepsNext, (w.decrement i self).pop) := by
    simp [mustSweep, loadImpl, deref, World.decrement, World.pop, World.setImpl,
      SignalImpl.sweepsNext, bind, Prog.bind, Pure.pure]
  refine .run (.bind (.loadImpl i) fun _ => .pure _) fun must w₂ hrun => ?_
  obtain ⟨rfl, rfl⟩ : self.sweepsNext = must ∧ (w.decrement i self).pop = w₂ := by
    simpa using hmust.symm.trans hrun
  split
  · rename_i hsw
    refine (sweep_ends hu hT u.fuel w₀ _ i hw (fun ho => ?_) fun ho it w' hrun' => ?_).mono
      fun _ w' h => ⟨h.2.1, h.2.2.trans hbelow, .inl (howned ▸ h.1)⟩
    · exact .stuck hs (.expired top himpl hsw (howned ▸ ho))
    · exact hs.tail (.signal (.leaveClearSweep top himpl (cleared self himpl) hsw ho hrun'))
  · rename_i hsw
    exact ⟨hs.tail (.signal (.leaveClear top himpl (cleared self himpl) (by simpa using hsw))),
      hbelow, .inr ⟨self, himpl, rfl⟩⟩

/-- `clear()` has left elements in the list, because it has been called during an emission. -/
def Leftover (w : World V) (i : Addr) : Prop :=
  ∃ w₁ saved self, Steps w w₁ ∧ w₁.frames = .clear i none none true saved :: w.frames ∧
    w₁.impls i = some self ∧ self.slots ≠ []

theorem clear_ends (hu : u.Spec T) (hT : ∀ w, T w) (hw : Sound w) (calm : w.Calm) :
    Ends T w (clear u i) w fun _ w' => Goes w w' ∧ (w.owned i = false → Leftover w i ∨
      ∀ self, w'.impls i = some self → self.slots = []) := by
  unfold clear
  refine .run (enterClear_straight i) fun o w₁ hrun => ?_
  obtain ⟨during, saved, it⟩ := o
  have hs₁ : Steps w w₁ := .single (.signal (.enterClear calm hrun))
  obtain ⟨self, himpl, -, -, hit, -, rfl⟩ := enterClear_effect hrun
  refine (disconnectLoop_ends hu hT hw u.fuel hs₁ rfl fun n hn => ⟨_, Function.update_self _ _ _,
    List.mem_of_head? (hit.symm.trans hn)⟩).bind fun _ w₂ h₂ => .modify ?_
  obtain ⟨hs₂, top₂⟩ := h₂
  have hs₂' := hs₂.tail (.signal (.recordCleared top₂))
  -- Only a clear() that no function on the list has called erases the elements.
  refine Ends.bind (Q := fun _ w' => Steps w w' ∧
    w'.frames = .clear i none none during saved :: w.frames ∧
      ∀ self, w'.impls i = some self → during = false → self.slots = []) ?_ fun _ w₃ h₃ => ?_
  · split
    · rename_i hd
      exact ⟨hs₂', top₂, fun _ _ hf => absurd (hd.symm.trans hf) (by simp)⟩
    · rename_i hd
      obtain rfl : during = false := by simpa using hd
      refine .run (setDeferred_straight _ _) fun _ w₃ hset => ?_
      obtain ⟨self', himpl', rfl⟩ := setDeferred_eq_ret.mp hset
      refine (clearSlots_ends hu hT hw u.fuel (hs₂'.tail (.signal (.restoreDeferred top₂
        himpl'))) top₂).mono fun _ w₄ h₄ => ⟨h₄.1, h₄.2.1, fun self' h _ => h₄.2.2 self' h⟩
  · obtain ⟨hs₃, top₃, hcleared⟩ := h₃
    refine (leaveClear_ends hu hT hw hs₃ top₃ hcleared).mono fun _ w₄ h₄ => ⟨⟨h₄.1, h₄.2.1⟩, ?_⟩
    intro hun
    have hun₃ := (hs₃.proceeds hw).extension.unowned i (hw.impls i self himpl) hun
    obtain ho | ⟨self₃, himpl₃, rfl⟩ := h₄.2.2
    · rw [hun₃] at ho
      cases ho
    -- The last pointer has gone meanwhile: the list is empty, or clear() was called in an emission.
    · by_cases hslots : self₃.slots = []
      · refine .inr fun self₄ himpl₄ => ?_
        simp only [World.pop, World.decrement, World.setImpl, Function.update_self,
          Option.some.injEq] at himpl₄
        rw [← himpl₄, hslots]
      · cases during with
        | false => exact absurd (hcleared self₃ himpl₃ rfl) hslots
        | true => exact .inl ⟨w₃, saved, self₃, hs₃, top₃, himpl₃, hslots⟩

/-- `~signal_impl()`, run by the last `shared_ptr` that has let go. -/
theorem destroy_ends (hu : u.Spec T) (hT : ∀ w, T w) (hw : Sound w)
    (top : w.frames = .releasing i :: below) (unowned : w.owned i = false) :
    Ends T w (destroy u i) w fun _ w' => Goes w w' ∧ w'.impls i = none := by
  unfold destroy
  refine .read ?_
  split
  · rename_i hbusy
    exact .stuck .refl (.inUse top unowned hbusy)
  · rename_i hidle
    refine (clear_ends hu hT hw (.of_top top rfl)).bind fun _ w₁ h₁ => ?_
    refine .run (loadSlots_straight i) fun l w₂ hl => ?_
    obtain ⟨self, himpl, rfl, -, rfl⟩ := loadSlots_eq_ret.mp hl
    have top₁ := h₁.1.2.trans top
    have hi : i < w.next := hw.top top
    split
    · rename_i hempty
      refine ⟨⟨h₁.1.1.tail (.signal (.endDispose top₁ ?_ ?_ himpl hempty)), h₁.1.2⟩, ?_⟩
      · exact (h₁.1.proceeds hw).extension.unowned i hi unowned
      · rw [h₁.1.2]
        simpa using hidle
      · simp [World.setImpl]
    · rename_i hslots
      obtain ⟨w₃, saved, self₃, hs₃, top₃, himpl₃, hslots₃⟩ | hempty := h₁.2 unowned
      · rw [top] at top₃
        exact .stuck hs₃ (.leftover top₃
          ((hs₃.proceeds hw).extension.unowned i hi unowned) himpl₃ hslots₃)
      · exact absurd (hempty self himpl) hslots

end Clear

/-! ## Connecting and blocking -/

theorem insert_ends (hT : ∀ w, T w) {i : Addr} {first move : Bool} {src : SlotAddr}
    (hw : Sound w) (user : w.UserPoint) (owned : w.owned i = true)
    (source : ¬w.Listed src) : Ends T w (insert u i first move src) w fun n w' =>
      Goes w w' ∧ w'.Filled n := by
  have huser {w₁ : World V} (h : SlotBase.Keeps w w₁) : w₁.UserPoint ∧ w₁.owned i = true := by
    refine ⟨?_, ?_⟩
    · unfold World.UserPoint
      rwa [h.1.2]
    · unfold World.owned
      rwa [h.1.2, h.2]
  have hbuilt : ∀ init w₁, SlotBase.Keeps w w₁ → (∀ f, init.functor = some f → w₁.FunctorOk f) →
      Ends T w (insertBuilt i first init) w₁ fun n w' => Goes w w' ∧ w'.Filled n :=
      fun init w₁ h hf => by
    refine .straight (insertBuilt_straight i first init) fun n w' run => ⟨h.1.trans (.of_step
      (.signal (.insertBuilt (huser h).1 (huser h).2 hf run)) ?_), ?_⟩
    all_goals
      obtain ⟨w₂, _, -, hf₂, -, _, r, _, _, _, -, -, -, rfl⟩ := insertBuilt_effect run
    · exact hf₂
    · exact ⟨_, r, Function.update_self _ _ _, rfl⟩
  unfold insert
  split
  · refine SlotBase.moveConstructWith_ends hT hw user.calm source hbuilt fun blocked w₁ h hs told => ?_
    refine .straight (insertTaken_straight i first src blocked) fun n w' run => ⟨h.1.trans (.of_step
      (.signal (.insertTaken (huser h).1 (huser h).2 hs told run)) ?_), ?_⟩
    all_goals
      obtain ⟨w₂, _, -, hf₂, -, -, _, r, _, _, _, -, -, -, rfl⟩ := insertTaken_effect run
    · exact hf₂
    · exact ⟨_, r, Function.update_self _ _ _, rfl⟩
  · exact (SlotBase.copyInit_ends hT u.fuel _ _ hw).bind fun init w₁ h => hbuilt init w₁ h.1 h.2

theorem blockLoop_ends (b : Bool) (l : List SlotAddr) :
    ∀ {w}, Goes w₀ w → Ends T w₀ (blockLoop b l) w fun _ => Goes w₀ := by
  induction l with
  | nil => exact fun {w} h => h
  | cons s ss ih =>
    intro w h
    unfold blockLoop SlotBase.block
    refine Ends.bind (Q := fun _ => Goes w₀) (.load rfl fun sl hsl => .modify' ?_) fun _ w₁ => ih
    exact h.trans (SlotBase.setBlocked_goes b hsl)

theorem block_ends {i : Addr} {b : Bool} : Ends T w (block i b) w fun _ => Goes w := by
  refine .run (loadSlots_straight i) fun l w₁ hl => ?_
  obtain ⟨self, -, -, -, rfl⟩ := loadSlots_eq_ret.mp hl
  exact blockLoop_ends b l (.refl _)

end SignalImpl

/-! ## Handles -/

namespace SignalBase

theorem impl_ends {h : Addr} : Ends T w (impl h) w fun i w' => Goes w w' ∧
    ((∃ o, (h, o) ∈ w.handles) → w'.owned i = true) := by
  refine .straight (impl_straight h) fun i w' run => ⟨.of_step (.signal (.impl run)) ?_,
    fun hh => owned_of_impl hh run⟩
  obtain ⟨-, rfl⟩ | ⟨-, -, rfl⟩ := impl_effect run <;> rfl

/-- A handle has let go of `old`, and the frame for its release is on top of `below`. -/
def Released (below : List (Frame V)) (old : Option Addr) (w : World V) : Prop :=
  w.frames = match old with
    | none => below
    | some i => .releasing i :: below

theorem letGo_released {i old : Option Addr} (run : letGo i w = (.ret old, w')) :
    Released w.frames old w' := by
  obtain ⟨rfl, rfl⟩ := letGo_effect run
  cases old with
  | none => rfl
  | some i =>
    unfold Released World.letGo World.push
    dsimp only [Option.elim]
    split <;> rfl

theorem releaseOld_ends (hu : u.Spec T) {old : Option Addr} (hw : Sound w₀)
    (hs : Steps w₀ w) (h : Released w₀.frames old w) :
    Ends T w₀ (releaseOld u old) w fun _ => Goes w₀ := by
  cases old with
  | none => exact ⟨hs, h⟩
  | some i =>
    exact ((SignalImpl.release_ends hu (hs.proceeds hw).sound h).after hs).mono fun _ w' h' =>
      ⟨hs.trans h'.1, h'.2⟩

theorem replaceImpl_ends {h : Addr} {i : Option Addr} (calm : w₀.Calm) (hgo : Goes w₀ w)
    (owned : ∀ j, i = some j → w.owned j = true) :
    Ends T w₀ (replaceImpl h i) w fun old w' => Steps w₀ w' ∧ Released w₀.frames old w' := by
  refine .straight (replaceImpl_straight h i) fun old w₁ run => ?_
  obtain ⟨-, hlet⟩ := replaceImpl_effect run
  have h : Released w.frames old w₁ := letGo_released (w := w.setHandle h i) hlet
  exact ⟨hgo.1.tail (.signal (.replaceImpl (hgo.calm calm) owned run)), hgo.2 ▸ h⟩

theorem assign_ends (hu : u.Spec T) {dst src : Addr} (hw : Sound w) (calm : w.Calm)
    (handle : ∃ o, (src, o) ∈ w.handles) : Ends T w (assign u dst src) w fun _ => Goes w := by
  unfold assign
  refine .read (.read ?_)
  split
  · exact Goes.refl w
  · refine impl_ends.bind fun i w₁ h₁ => ?_
    refine (replaceImpl_ends calm h₁.1 ?_).bind fun old w₂ h₂ => releaseOld_ends hu hw h₂.1 h₂.2
    rintro _ ⟨⟩
    exact h₁.2 handle

theorem moveAssign_ends (hu : u.Spec T) {dst src : Addr} (hw : Sound w) (calm : w.Calm) :
    Ends T w (moveAssign u dst src) w fun _ => Goes w := by
  unfold moveAssign
  refine .read (.read ?_)
  split
  · exact Goes.refl w
  · refine (replaceImpl_ends calm (.refl w) fun j hj => World.owned_of_implOf hj).bind
      fun old w₁ h₁ => ?_
    refine (releaseOld_ends hu hw h₁.1 h₁.2).bind fun _ w₂ h₂ => ?_
    refine .read ?_
    split
    · exact (replaceImpl_ends calm h₂ (by simp)).bind fun old w₃ h₃ =>
        releaseOld_ends hu hw h₃.1 h₃.2
    · exact .unwatched rfl

theorem destroy_ends (hu : u.Spec T) {h : Addr} (hw : Sound w) (calm : w.Calm) :
    Ends T w (destroy u h) w fun _ => Goes w := by
  refine .run (dropHandle_straight h) fun old w₁ run => ?_
  obtain ⟨-, hlet⟩ := dropHandle_effect run
  have h := letGo_released hlet
  exact releaseOld_ends hu hw (.single (.signal (.dropHandle calm run))) h

theorem clear_ends (hu : u.Spec T) (hT : ∀ w, T w) {h : Addr} (hw : Sound w) (calm : w.Calm) :
    Ends T w (clear u h) w fun _ => Goes w := by
  unfold clear
  refine .read ?_
  cases w.implOf h with
  | none => exact Goes.refl w
  | some i => exact (SignalImpl.clear_ends hu hT hw calm).mono fun _ _ h => h.1

theorem block_ends {h : Addr} {b : Bool} : Ends T w (block h b) w fun _ => Goes w := by
  unfold block
  refine .read ?_
  cases w.implOf h with
  | none => exact Goes.refl w
  | some i => exact SignalImpl.block_ends

end SignalBase

end Sigc
