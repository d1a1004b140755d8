import Sigc.Bookkeeping

/-!
# What a disconnection keeps

The functions that run when a slot is disconnected, from `connection::disconnect()` down to the
destruction of the elements that `sweep()` erases.  The slot told to disconnect is not owned any more,
and `sweep()` erases empty slots only, so whatever the other code does that keeps to the books, they
do so, too.
-/

namespace Sigc

open Reasoning Prog

variable {V : Type} {u : Env V} {w w' v : World V} {b : Books} {q : Addr} {s : SlotAddr}

/-! ## Callbacks -/

namespace Trackable

theorem removeDestroyNotifyCallback_keeps (t data : Addr) :
    Within b.Keeps (removeDestroyNotifyCallback t data : M V Unit) :=
  within_load fun _ tr htr =>
    .heap (fun _ => .replace htr (aside_removeCallback data tr)) rfl rfl fun _ _ => id

/-- What deletes the list of callbacks of `q` is running. -/
def Running (q : Addr) (w : World V) : Prop :=
  w.clearing q = true ∧ ∃ pos deps, .notifying q pos deps ∈ w.frames

/-- The books are followed on while `q` runs through its callbacks. -/
def KeepsOn (b : Books) (q : Addr) (w w' : World V) : Prop :=
  w.Follows b ∧ Running q w → w'.Follows b ∧ Running q w'

instance : Std.Refl (KeepsOn (V := V) b q) := ⟨fun _ => id⟩

instance : IsTrans (World V) (KeepsOn b q) := ⟨fun _ _ _ h h' hw => h' (h hw)⟩

variable (hb : b.Backed) (hu : u.Honours b) (hq : ¬b.Live q)

section

include hu

/-- Other code that is called by the loop leaves the loop as it is. -/
theorem call_keepsOn (c : Call) : Within (KeepsOn b q) (u.call c) := by
  rintro w ⟨hw, hclearing, pos, deps, hm⟩
  obtain hsame | h := hu c w
  · rw [hsame]
    exact ⟨hw, hclearing, pos, deps, hm⟩
  · have hm' : .notifying q pos deps ∈ (u.call c w).2.frames := h.frames ▸ hm
    obtain ⟨tr, l, htr, hl, hcl, -⟩ := Registry.clearing h.sane.2.registered q pos deps
      (mem_loopsOf.mpr ⟨hm', rfl⟩)
    refine ⟨h.keeps hw, ?_, pos, deps, hm'⟩
    rw [World.clearing, callbacksOf_of_list htr hl, hcl]

end

include hb hu hq

theorem runCallback_keepsOn {tr : Trackable} {cb : TrackableCallback}
    (htr : w.trackables q = some tr) (hcb : cb ∈ tr.callbacks.callbacks) :
    KeepsOn b q w (runCallback u cb w).2 := by
  obtain ⟨data, func⟩ := cb
  cases func with
  | none => exact Std.Refl.refl w
  | some func =>
    cases func with
    | notifySlotRepInvalidated => exact within_bind (call_keepsOn hu _) (fun _ => within_pure _) w
    | notifySelfAndIterOfInvalidatedSlot => exact Std.Refl.refl w
    | notifyObjectInvalidated =>
      refine load_within fun x hx ⟨hw, hrun⟩ => ⟨?_, hrun⟩
      refine Books.Keeps.resetWeak hb (List.count_pos_iff.mpr ?_) hq hrun.1 hx hw
      simpa [callbacksOf, htr] using hcb

theorem callbackLoop_keepsOn (deps : List Dependent) (n pos : Nat) :
    Within (KeepsOn b q) (callbackLoop u q deps n pos) := by
  refine callbackLoop_within (fun w tr cb => runCallback_keepsOn hb hu hq)
    (fun w pos ⟨hw, hclearing, _⟩ => ?_) n pos
  have hstill : w.Still (w.setTop (.notifying q pos deps)) := ⟨rfl, rfl, rfl, rfl, rfl⟩
  exact ⟨hstill.keeps hw, hclearing, pos, deps, List.mem_cons_self⟩

theorem notifyCallbacks_keeps : Within b.Keeps (notifyCallbacks u q) := by
  intro w
  refine load_within fun tr htr => ?_
  rw [read_bind_run]
  cases hl : tr.callbackList with
  | none => exact World.Still.keeps ⟨rfl, rfl, rfl, rfl, rfl⟩
  | some l =>
    dsimp only
    split
    · exact Std.Refl.refl w
    · have hbegin : b.Keeps w ((w.setTrackable q (some { tr with
          callbackList := some { l with clearing := true } })).push
            (.notifying q 0 (w.dependents q))) :=
        .heap (fun _ => (Aside.beginClearing htr hl).trans (.others rfl rfl rfl)) rfl rfl fun _ _ => id
      refine within_bind_at hbegin fun _ v hv => ?_
      obtain rfl := modify_eq_ret.mp hv
      have hrunning : Running q ((w.setTrackable q (some { tr with
          callbackList := some { l with clearing := true } })).push
            (.notifying q 0 (w.dependents q))) :=
        ⟨by simp [World.clearing, World.push, World.setTrackable, callbacksOf, Trackable.callbacks],
          0, _, List.mem_cons_self⟩
      refine within_bind_at (fun hw => (callbackLoop_keepsOn hb hu hq _ _ _ _ ⟨hw, hrunning⟩).1)
        fun _ v _ => load_within fun tr' htr' => ?_
      exact .heap (fun _ => (Aside.dropList tr').trans (.others rfl rfl rfl)) rfl rfl fun _ _ => id

end Trackable

theorem slotDoUnbind_keeps (r : Addr) (t : Target) :
    Within b.Keeps (slotDoUnbind r t : M V Unit) := by
  cases t with
  | trackable t => exact Trackable.removeDestroyNotifyCallback_keeps t r
  | slot s =>
    refine within_bind (within_deref _ _) fun sl => ?_
    cases sl.rep with
    | none => exact within_pure _
    | some q =>
      apply within_load
      intro w rep hrep
      split
      · exact Books.Keeps.setParent hrep rfl
      · exact Std.Refl.refl w

/-! ## Reps and slots -/

namespace SlotRep

theorem detachFunctor_keeps (hq : ¬b.Live q) :
    Within b.Keeps (detachFunctor q : M V (Option Functor)) := by
  apply within_load
  intro w self hself
  obtain ⟨call, cleanup, parent, functor⟩ := self
  cases functor with
  | none => exact Books.Keeps.setRep hq _
  | some f =>
    refine IsTrans.trans _ _ _ (Books.Keeps.setRep hq ⟨false, cleanup, parent, some f⟩) ?_
    refine within_bind (visitEach_within (slotDoUnbind_keeps q) f) (fun _ => ?_) _
    exact within_load fun w' self' hself' => Books.Keeps.setRep hq _

variable (hb : b.Backed) (hu : u.Honours b) (hq : ¬b.Live q)
include hb hu hq

theorem delete_keeps : Within b.Keeps (SlotRep.delete u q) := by
  refine within_bind (within_deref _ _) fun _ => within_load fun w base hbase => ?_
  split
  · exact Std.Refl.refl w
  · have hdying : b.Keeps w ((w.setTrackable q (some { base with dying := true })).push
        (.deleting q)) :=
      .heap (fun _ => (Aside.sameList (x := { base with dying := true }) hbase rfl).trans
        (.others rfl rfl rfl)) rfl rfl fun _ _ => id
    refine within_bind_at hdying fun _ v _ => ?_
    refine within_bind (within_bind (detachFunctor_keeps hq) fun fo => ?_) (fun _ =>
      within_bind (Trackable.notifyCallbacks_keeps hb hu hq) fun _ => within_modify fun v => ?_) v
    · cases fo with
      | none => exact within_pure _
      | some f => exact within_bind (hu.keeps _) fun _ => within_pure _
    · exact IsTrans.trans _ _ _ (Books.Keeps.eraseRep hq)
        (World.Still.keeps ⟨rfl, rfl, rfl, rfl, rfl⟩)

end SlotRep

/-- The slot may be destroyed: nobody owns it, and its rep is not live. -/
def World.Disposable (w : World V) (b : Books) (s : SlotAddr) : Prop :=
  ¬b.Owned s ∧ ∀ r, w.Holds s r → ¬b.Live r

theorem World.Disposable.of_still (h : w.Disposable b s) (hs : w.Still w') : w'.Disposable b s := by
  refine ⟨h.1, fun r hr => h.2 r ?_⟩
  rwa [World.Holds, hs.slots] at hr

theorem SlotBase.destroy_keeps (hb : b.Backed) (hu : u.Honours b)
    (hs : w.Disposable b s) : b.Keeps w (destroy u s w).2 := by
  refine load_within fun sl hsl => ?_
  have hdying : b.Keeps w (w.setSlot s (some { sl with dying := true })) :=
    Books.Keeps.setDying hsl rfl
  refine within_bind_at hdying fun _ v _ => within_bind ?_ (fun _ => within_modify fun v =>
    Books.Keeps.endSlot hs.1) v
  unfold deleteRep
  cases hr : sl.rep with
  | none => exact within_pure _
  | some q => exact SlotRep.delete_keeps hb hu (hs.2 q ⟨sl, hsl, hr⟩)

/-- An empty slot is not that of an owner. -/
theorem World.Follows.spent_of_empty (hb : b.Backed) (hw : w.Follows b)
    (run : SlotBase.empty s w = (.ret true, w')) : w' = w ∧ w.Disposable b s := by
  obtain ⟨sl, w₁, hload, hrun⟩ := bind_eq_ret.mp run
  obtain ⟨hsl, rfl⟩ := deref_eq_ret.mp hload
  cases hr : sl.rep with
  | none =>
    rw [hr] at hrun
    refine ⟨(pure_eq_ret.mp hrun).2.symm, fun ⟨k, r, hk⟩ => ?_, fun r ⟨x, hx, hxr⟩ => ?_⟩
    · obtain ⟨x, hx, hxr⟩ := hw.holds k s r hk
      obtain rfl := Option.some.inj (hsl.symm.trans hx)
      rw [hr] at hxr
      cases hxr
    · obtain rfl := Option.some.inj (hsl.symm.trans hx)
      rw [hr] at hxr
      cases hxr
  | some q =>
    rw [hr] at hrun
    obtain ⟨rep, w₂, hload', hcall⟩ := bind_eq_ret.mp hrun
    obtain ⟨hrep, rfl⟩ := deref_eq_ret.mp hload'
    obtain ⟨hcall, rfl⟩ := pure_eq_ret.mp hcall
    have hdead : ¬b.Live q := by
      intro hlive
      refine hw.connected q hlive fun rep' hrep' => ?_
      rw [← Option.some.inj (hrep.symm.trans hrep')]
      simpa using hcall
    refine ⟨rfl, fun ⟨k, r, hk⟩ => ?_, fun r ⟨x, hx, hxr⟩ => ?_⟩
    · obtain ⟨x, hx, hxr⟩ := hw.holds k s r hk
      obtain rfl := Option.some.inj (hsl.symm.trans hx)
      obtain rfl := Option.some.inj (hr.symm.trans hxr)
      exact hdead ⟨⟨s, (hb k s q hk).1⟩, (hb k s q hk).2⟩
    · obtain rfl := Option.some.inj (hsl.symm.trans hx)
      obtain rfl := Option.some.inj (hr.symm.trans hxr)
      exact hdead

/-! ## Lists -/

namespace SignalImpl

theorem loadSlots_still (i : Addr) : Within World.Still (loadSlots i : M V (List SlotAddr)) :=
  within_bind (within_deref _ _) fun _ => within_bind (within_read _) fun _ =>
    within_ite (within_halt _) (within_pure _)

/-- A function that changes one list. -/
theorem setImpl_still {i : Addr} {f : SignalImpl → Option SignalImpl} :
    Within World.Still (do
      let self ← loadImpl i
      modify (·.setImpl i (f self)) : M V Unit) :=
  within_bind (within_deref _ _) fun _ => within_modify fun _ => ⟨rfl, rfl, rfl, rfl, rfl⟩

theorem unlink_still (k : Fault) (i : Addr) (n : SlotAddr) :
    Within World.Still (unlink k i n : M V Unit) :=
  within_bind (loadSlots_still i) fun _ => within_ite setImpl_still (within_halt _)

theorem next_still (i : Addr) (n : SlotAddr) :
    Within World.Still (next i n : M V (Option SlotAddr)) :=
  within_bind (loadSlots_still i) fun _ => within_deref _ _

theorem empty_still (s : SlotAddr) : Within World.Still (SlotBase.empty s : M V Bool) := by
  refine within_bind (within_deref _ _) fun sl => ?_
  cases sl.rep with
  | none => exact within_pure _
  | some r => exact within_bind (within_deref _ _) fun _ => within_pure _

/-- What changes lists and the stack only keeps to the books. -/
theorem keeps_of_still {α : Type} {x : M V α} (h : Within World.Still x) : Within b.Keeps x :=
  fun w => (h w).keeps

variable (hb : b.Backed) (hu : u.Honours b)
include hu

theorem release_keeps (i : Addr) : Within b.Keeps (release u i) := by
  refine within_bind (within_read _) fun owned => within_bind ?_ fun _ =>
    within_modify fun _ => World.Still.keeps ⟨rfl, rfl, rfl, rfl, rfl⟩
  exact within_ite (within_pure _) (within_bind (hu.keeps _) fun _ => within_pure _)

theorem leaveHolder_keeps {sweep : Addr → M V Unit} (hsweep : ∀ i, Within b.Keeps (sweep i))
    (i : Addr) : Within b.Keeps (leaveHolder u sweep i) := by
  refine within_bind (keeps_of_still setImpl_still) fun _ => within_bind ?_ fun _ =>
    within_bind ?_ fun must => within_bind (within_ite (hsweep i) (within_pure _)) fun _ =>
      within_bind ?_ fun _ => release_keeps hu i
  · exact within_modify fun _ => World.Still.keeps ⟨rfl, rfl, rfl, rfl, rfl⟩
  · exact within_bind (within_deref _ _) fun _ => within_pure _
  · exact within_modify fun _ => World.Still.keeps ⟨rfl, rfl, rfl, rfl, rfl⟩

include hb

/-- `sweep()` erases empty slots only. -/
theorem sweepLoop_keeps (i : Addr) (n : Nat) : ∀ it, Within b.Keeps (sweepLoop u i n it) := by
  -- on the rounds left; in each one an empty slot is destroyed, or the iterator moves on
  induction n with
  | zero =>
    intro it
    exact within_halt _
  | succ n ih =>
    intro it
    cases it with
    | none => exact within_pure _
    | some s =>
      have htop (f : Frame V) : Within World.Still (modify (·.setTop f) : M V Unit) :=
        within_modify fun _ => ⟨rfl, rfl, rfl, rfl, rfl⟩
      refine within_bind (keeps_of_still (next_still i s)) fun it' w => Books.Keeps.assume fun hw => ?_
      refine within_bind_at (keeps_of_still (empty_still s) w) fun empty v hempty => ?_
      split
      · rename_i hyes
        subst hyes
        obtain ⟨rfl, hspent⟩ := hw.spent_of_empty hb hempty
        refine within_bind_at (keeps_of_still (unlink_still _ i s) _) fun _ v₁ h₁ => ?_
        refine within_bind_at (keeps_of_still (htop _) v₁) fun _ v₂ h₂ => ?_
        have hspent₂ := (hspent.of_still ((unlink_still _ i s).of_ret h₁)).of_still
          ((htop _).of_ret h₂)
        refine within_bind_at (SlotBase.destroy_keeps hb hu hspent₂) fun _ v₃ _ => ?_
        exact within_bind (keeps_of_still (htop _)) (fun _ => ih it') v₃
      · exact within_bind (keeps_of_still (htop _)) (fun _ => ih it') v

theorem sweep_keeps (n : Nat) : ∀ i, Within b.Keeps (sweep u n i) := by
  induction n with
  | zero =>
    intro i
    exact within_halt _
  | succ n ih =>
    intro i
    refine within_bind (within_read _) fun owned => within_ite ?_ (within_halt _)
    have henter : Within World.Still (enterSweep i : M V (Option SlotAddr)) :=
      within_bind setImpl_still fun _ => within_bind setImpl_still fun _ =>
        within_bind (loadSlots_still i) fun _ =>
          within_bind (within_modify fun _ => ⟨rfl, rfl, rfl, rfl, rfl⟩) fun _ => within_pure _
    exact within_bind (keeps_of_still henter) fun it =>
      within_bind (sweepLoop_keeps hb hu i u.fuel it) fun _ => leaveHolder_keeps hu ih i

theorem eraseOrDefer_keeps {si : SelfAndIter} (hs : w.Disposable b si.iter) :
    b.Keeps w (eraseOrDefer u si w).2 := by
  refine load_within fun self hself => ?_
  split
  · have hpush (f : Frame V) : Within World.Still (modify (·.push f) : M V Unit) :=
      within_modify fun _ => ⟨rfl, rfl, rfl, rfl, rfl⟩
    refine within_bind_at (keeps_of_still setImpl_still w) fun _ v₁ h₁ => ?_
    refine within_bind_at (keeps_of_still (hpush _) v₁) fun _ v₂ h₂ => ?_
    refine within_bind_at (keeps_of_still (unlink_still _ _ _) v₂) fun _ v₃ h₃ => ?_
    have hspent := ((hs.of_still (setImpl_still.of_ret h₁)).of_still
      ((hpush _).of_ret h₂)).of_still ((unlink_still _ _ _).of_ret h₃)
    refine within_bind_at (SlotBase.destroy_keeps hb hu hspent) fun _ v₄ _ => ?_
    exact leaveHolder_keeps hu (sweep_keeps hb hu u.fuel) _ v₄
  · exact keeps_of_still setImpl_still w

theorem notifySelfAndIter_keeps {d : Addr}
    (hs : ∀ si, w.records d = some si → w.Disposable b si.iter) :
    b.Keeps w (notifySelfAndIterOfInvalidatedSlot u d w).2 := by
  refine load_within fun si hsi => ?_
  have hpush : Within World.Still (modify (·.push (.cleanup d)) : M V Unit) :=
    within_modify fun _ => ⟨rfl, rfl, rfl, rfl, rfl⟩
  refine within_bind_at (keeps_of_still hpush w) fun _ v hv => ?_
  rw [read_bind_run]
  refine within_bind_at ?_ fun _ v' _ => World.Still.keeps ⟨rfl, rfl, rfl, rfl, rfl⟩
  split
  · exact eraseOrDefer_keeps hb hu ((hs si hsi).of_still (hpush.of_ret hv))
  · exact Std.Refl.refl v

end SignalImpl

/-! ## The disconnection -/

/-- The rep that is told is not live, and neither is that of the element whose list is told of it. -/
theorem SlotRep.disconnect_keeps (hb : b.Backed) (hu : u.Honours b)
    (hl : w.Linked) (hq : ¬b.Live q) :
    b.Keeps w (disconnect u (SignalImpl.notifySelfAndIterOfInvalidatedSlot u) q w).2 := by
  refine Books.Keeps.assume fun hw => load_within fun self hself => ?_
  have hsever (x : SlotRep) : b.Keeps w ((w.setRep q (some x)).record (.disconnected q)) :=
    IsTrans.trans _ _ _ (Books.Keeps.setRep hq _) (World.Still.keeps ⟨rfl, rfl, rfl, rfl, rfl⟩)
  obtain ⟨call, cleanup, parent, functor⟩ := self
  cases parent with
  | none => exact hsever ⟨false, cleanup, none, functor⟩
  | some d =>
    refine within_bind_at (hsever ⟨false, cleanup, none, functor⟩) fun _ v hv => ?_
    obtain rfl := modify_eq_ret.mp hv
    cases cleanup with
    | none => exact Std.Refl.refl (r := b.Keeps) _
    | some func =>
      cases func with
      | notifySlotRepInvalidated => exact within_bind (hu.keeps _) (fun _ => within_pure _) _
      | notifyObjectInvalidated => exact Std.Refl.refl (r := b.Keeps) _
      | notifySelfAndIterOfInvalidatedSlot =>
        refine SignalImpl.notifySelfAndIter_keeps hb hu fun si hsi => ?_
        obtain ⟨si', sl, hsi', hsl, hr, -⟩ := hl.child q _ d hself ⟨rfl, rfl⟩
        obtain rfl := Option.some.inj (hsi'.symm.trans hsi)
        refine ⟨fun ⟨k, r, hk⟩ => ?_, fun r ⟨x, hx, hxr⟩ => ?_⟩
        · obtain ⟨x, hx, hxr⟩ := hw.holds k _ r hk
          obtain rfl := Option.some.inj (hsl.symm.trans hx)
          obtain rfl := Option.some.inj (hr.symm.trans hxr)
          exact hq ⟨⟨_, (hb k _ q hk).1⟩, (hb k _ q hk).2⟩
        · obtain rfl := Option.some.inj (hsl.symm.trans hx)
          obtain rfl := Option.some.inj (hr.symm.trans hxr)
          exact hq

/-- A `scoped_connection` that owns nothing any more tells the slot to disconnect that it still
refers to. -/
theorem Connection.disconnect_keeps (hb : b.Backed) (hu : u.Honours b)
    (hl : w.Linked) {k : Addr} {ρ : Role} (live : b.role k = some ρ.told) :
    b.Keeps w (disconnect u k w).2 := by
  refine Books.Keeps.assume fun hw => load_within fun self hself => ?_
  have hrefers := hw.refers k _ live
  rw [hself] at hrefers
  have hspent {s : SlotAddr} (hs : ρ.told = .spent s) (hptr : self.ptr = some (.slot s)) :
      b.Keeps w (SlotBase.disconnect u (SignalImpl.notifySelfAndIterOfInvalidatedSlot u) s w).2 := by
    refine load_within fun sl hsl => ?_
    cases hr : sl.rep with
    | none => exact Std.Refl.refl w
    | some q =>
      refine SlotRep.disconnect_keeps hb hu hl fun hlive => hlive.2 ?_
      refine hw.spent k s q (hs ▸ live) ?_ ⟨sl, hsl, hr⟩
      rw [hself]
      rw [hs] at hrefers
      rcases hrefers with h | h <;> cases h
      · cases hptr
      · rfl
  cases hρ : ρ.told with
  | owner s r => cases ρ <;> cases hρ
  | empty =>
    rw [hρ] at hrefers
    cases hrefers
    exact Std.Refl.refl w
  | spent s =>
    rw [hρ] at hrefers
    rcases hrefers with h | h <;> cases h
    · exact Std.Refl.refl w
    · exact hspent hρ rfl

end Sigc
