import Sigc.WatchSteps
import Mathlib.Data.List.Nodup

/-!
# The registrations of reps with trackables

A rep registers itself once with a trackable for every time its functor refers to it.  While a
trackable runs through its callbacks none is added to them, and those that are removed are made
inactive, so the loop meets every callback that was there at its beginning.
-/

namespace Sigc

open Reasoning Prog

variable {V : Type} {w w' : World V}

/-- The callback by which `r` is registered with the trackables in its functor. -/
abbrev SlotRep.binding (r : Addr) : TrackableCallback := ⟨r, some .notifySlotRepInvalidated⟩

namespace TrackableCallbackList

variable {clearing : Bool} {d : Addr} {cb : TrackableCallback} {l : List TrackableCallback}

theorem count_removeFirst_of_ne (hd : cb.data ≠ d) (hf : cb.func ≠ none) :
    (removeFirst clearing d l).count cb = l.count cb := by
  induction l with
  | nil => rfl
  | cons x xs ih =>
    unfold removeFirst
    split
    · rename_i hx
      have hne : x ≠ cb := fun h => hd (h ▸ hx.1)
      split
      · have hne' : ({ x with func := none } : TrackableCallback) ≠ cb := fun h => hf (h ▸ rfl)
        rw [List.count_cons_of_ne hne, List.count_cons_of_ne hne']
      · rw [List.count_cons_of_ne hne]
    · rw [List.count_cons, List.count_cons, ih]

/-- The first active callback for `d` is taken away, which is `cb` if there is any. -/
theorem count_removeFirst (hd : cb.data = d) (hf : cb.func ≠ none)
    (all : ∀ x ∈ l, x.data = d → x.func = none ∨ x = cb) :
    (removeFirst clearing d l).count cb = l.count cb - 1 := by
  induction l with
  | nil => rfl
  | cons x xs ih =>
    have ih := ih fun y hy => all y (List.mem_cons_of_mem x hy)
    unfold removeFirst
    by_cases hx : x.data = d ∧ x.func ≠ none
    · obtain rfl := (all x List.mem_cons_self hx.1).resolve_left hx.2
      have hne : ({ x with func := none } : TrackableCallback) ≠ x := fun h => hf (h ▸ rfl)
      rw [if_pos hx, List.count_cons_self, Nat.add_sub_cancel]
      split
      · exact List.count_cons_of_ne hne
      · rfl
    · have hne : x ≠ cb := fun h => hx (h ▸ ⟨hd, hf⟩)
      rw [if_neg hx, List.count_cons_of_ne hne, List.count_cons_of_ne hne, ih]

/-- While the list is being cleared, the callbacks keep their positions. -/
theorem getElem?_removeFirst (hf : cb.func ≠ none) {p : Nat}
    (h : (removeFirst true d l)[p]? = some cb) : l[p]? = some cb := by
  induction l generalizing p with
  | nil => cases h
  | cons x xs ih =>
    unfold removeFirst at h
    split at h
    · rw [if_pos rfl] at h
      cases p with
      | zero =>
        obtain rfl := Option.some.inj h
        exact absurd rfl hf
      | succ p => exact h
    · cases p with
      | zero => exact h
      | succ p => exact ih h

end TrackableCallbackList

namespace Trackable

/-- What becomes of a trackable from which callbacks for `d` are removed, or to which such callbacks
with the function `func` are added. -/
structure Alters (d : Addr) (func : Option DestroyNotify) (x y : Trackable) : Prop where
  active : ∀ cb ∈ y.callbacks.callbacks, cb.func ≠ none →
    cb ∈ x.callbacks.callbacks ∨ cb.data = d ∧ cb.func = func
  others : ∀ r ≠ d, y.callbacks.callbacks.count (SlotRep.binding r) =
    x.callbacks.callbacks.count (SlotRep.binding r)
  clearing : ∀ l, x.callbackList = some l → l.clearing = true →
    ∃ l', y.callbackList = some l' ∧ l'.clearing = true ∧
      ∀ (p : Nat) (cb : TrackableCallback), cb.func ≠ none →
        l'.callbacks[p]? = some cb → l.callbacks[p]? = some cb

namespace Alters

variable {d : Addr} {func : Option DestroyNotify} {x y z : Trackable}

theorem refl (x : Trackable) : Alters d func x x where
  active _ h _ := .inl h
  others _ _ := rfl
  clearing l hl hc := ⟨l, hl, hc, fun _ _ _ h => h⟩

theorem trans (h : Alters d func x y) (h' : Alters d func y z) : Alters d func x z where
  active cb hcb hf := (h'.active cb hcb hf).elim (h.active cb · hf) .inr
  others r hr := (h'.others r hr).trans (h.others r hr)
  clearing l hl hc := by
    obtain ⟨l₁, hl₁, hc₁, hpos₁⟩ := h.clearing l hl hc
    obtain ⟨l₂, hl₂, hc₂, hpos₂⟩ := h'.clearing l₁ hl₁ hc₁
    exact ⟨l₂, hl₂, hc₂, fun p cb hf hp => hpos₁ p cb hf (hpos₂ p cb hf hp)⟩

theorem removeCallback (d : Addr) (x : Trackable) : Alters d none x (x.removeCallback d) where
  active cb hcb hf := .inl ((TrackableCallbackList.mem_removeFirst hcb).resolve_right hf)
  others r hr := TrackableCallbackList.count_removeFirst_of_ne hr (by simp)
  clearing l hl hc := by
    have hx : x.callbacks = l := by simp [callbacks, hl]
    refine ⟨_, rfl, hx ▸ hc, fun p cb hf hp => ?_⟩
    rw [hx] at hp
    change (TrackableCallbackList.removeFirst l.clearing d l.callbacks)[p]? = some cb at hp
    rw [hc] at hp
    exact TrackableCallbackList.getElem?_removeFirst hf hp

theorem addCallback (d : Addr) (f : DestroyNotify) (x : Trackable) :
    Alters d (some f) x (x.addCallback d f) where
  active cb hcb _ := by
    change cb ∈ (x.callbacks.addCallback d f).callbacks at hcb
    unfold TrackableCallbackList.addCallback at hcb
    split at hcb
    · exact .inl hcb
    · refine (List.mem_append.mp hcb).imp_right fun hnew => ?_
      rw [List.mem_singleton.mp hnew]
      exact ⟨rfl, rfl⟩
  others r hr := by
    change (x.callbacks.addCallback d f).callbacks.count _ = _
    unfold TrackableCallbackList.addCallback
    split
    · rfl
    · have hne : (⟨d, some f⟩ : TrackableCallback) ≠ SlotRep.binding r := fun h =>
        hr (congrArg TrackableCallback.data h).symm
      rw [List.count_append, List.count_singleton, if_neg (by simpa using hne), Nat.add_zero]
  clearing l hl hc := by
    have hx : x.callbacks = l := by simp [callbacks, hl]
    refine ⟨l, ?_, hc, fun _ _ _ h => h⟩
    simp [Trackable.addCallback, hx, TrackableCallbackList.addCallback, hc]

end Alters

/-- Callbacks are ignored while the list is being cleared. -/
theorem count_iterate_addCallback (r : Addr) (x : Trackable) (k : Nat) :
    (Nat.iterate (addCallback r .notifySlotRepInvalidated) k x).callbacks.callbacks.count
      (SlotRep.binding r) = x.callbacks.callbacks.count (SlotRep.binding r) +
        if x.callbacks.clearing then 0 else k := by
  induction k generalizing x with
  | zero => simp
  | succ k ih =>
    rw [Function.iterate_succ_apply, ih, addCallback_clearing]
    have hadd : (x.addCallback r .notifySlotRepInvalidated).callbacks.callbacks =
        x.callbacks.callbacks ++ if x.callbacks.clearing then [] else [SlotRep.binding r] := by
      change (x.callbacks.addCallback r .notifySlotRepInvalidated).callbacks = _
      unfold TrackableCallbackList.addCallback
      split <;> simp
    rw [hadd, List.count_append]
    split
    · simp
    · rw [List.count_singleton_self]
      omega

theorem count_iterate_removeCallback {r : Addr} {x : Trackable}
    (all : ∀ cb ∈ x.callbacks.callbacks, cb.data = r → cb.func = none ∨ cb = SlotRep.binding r)
    (k : Nat) :
    (Nat.iterate (removeCallback r) k x).callbacks.callbacks.count (SlotRep.binding r) =
      x.callbacks.callbacks.count (SlotRep.binding r) - k := by
  induction k generalizing x with
  | zero => rfl
  | succ k ih =>
    rw [Function.iterate_succ_apply, ih fun cb hcb hd => ?_]
    · have hone : (x.removeCallback r).callbacks.callbacks.count (SlotRep.binding r) =
          x.callbacks.callbacks.count (SlotRep.binding r) - 1 :=
        TrackableCallbackList.count_removeFirst rfl (by simp) all
      omega
    · by_cases hf : cb.func = none
      · exact .inl hf
      · exact all cb ((TrackableCallbackList.mem_removeFirst hcb).resolve_right hf) hd

end Trackable

/-- Every trackable in `new` comes from one in `old` by a change of the callbacks for `d`, and none
is gone. -/
def Altered (d : Addr) (func : Option DestroyNotify) (old new : Addr → Option Trackable) : Prop :=
  ∀ t, (old t = none ∧ new t = none) ∨
    ∃ x y, old t = some x ∧ new t = some y ∧ Trackable.Alters d func x y

theorem Changed.altered {g : Trackable → Trackable} {k : Addr → Nat} {d : Addr}
    {func : Option DestroyNotify} {old new : Addr → Option Trackable} (h : Changed g k old new)
    (hg : ∀ x, Trackable.Alters d func x (g x)) : Altered d func old new := by
  intro t
  cases ht : new t with
  | none => exact .inl ⟨(h.none_iff t).mp ht, rfl⟩
  | some y =>
    obtain ⟨x, hx, hxy⟩ := h.preserves (P := Trackable.Alters d func) .refl
      (fun _ _ _ => .trans) hg ht
    exact .inr ⟨x, y, hx, rfl, hxy⟩

/-! ## The registry -/

def Frame.notified : Frame V → Option Addr
  | .notifying t _ _ => some t
  | _ => none

/-- The frames that the registrations depend on. -/
def Frame.registers : Frame V → Bool
  | .notifying .. | .invalidating .. | .deleting _ => true
  | _ => false

/-- Nothing can be reached from `r`, which has been destroyed or has lost its functor. -/
def Bare (fns : Addr → Option (Option Functor)) (r : Addr) : Prop := (fns r).join = none

/-- How often the functor of `r` reaches `t`. -/
def reaches (fns : Addr → Option (Option Functor)) (r t : Addr) : Nat :=
  ((fns r).join.getD []).count (.trackable t)

/-- How often `r` is registered with `t`. -/
def bindings (tks : Addr → Option Trackable) (t r : Addr) : Nat :=
  (callbacksOf tks t).callbacks.count (SlotRep.binding r)

/-- `r` is registered with `t` as often as its functor refers to it, or less often if it has tried to
register itself when `t` was notifying, or if its slot has been moved in the middle of its
invalidation.  Where `t` has been destroyed, there are no registrations. -/
def Balanced (tks : Addr → Option Trackable) (fns : Addr → Option (Option Functor))
    (ign : List (Addr × Addr)) (log : List Event) (t r : Addr) : Prop :=
  bindings tks t r ≤ reaches fns r t ∧
    ((t, r) ∉ ign → .moved r true ∉ log → bindings tks t r = reaches fns r t)

/-- Reps and weak pointers are registered by functions of their own. -/
def TrackableCallback.Fits (fns : Addr → Option (Option Functor)) (weaks : Addr → Option WeakRawPtr)
    (next : Addr) (cb : TrackableCallback) : Prop :=
  (cb.func = some .notifySlotRepInvalidated → cb.data < next ∧ weaks cb.data = none) ∧
    (cb.func = some .notifyObjectInvalidated → cb.data < next ∧ fns cb.data = none) ∧
      cb.func ≠ some .notifySelfAndIterOfInvalidatedSlot

/-- The callback of the notifier `x` is the only one that resets it. -/
structure Notifies (tks : Addr → Option Trackable) (fns : Addr → Option (Option Functor))
    (weaks : Addr → Option WeakRawPtr) (log : List Event) (r x : Addr) : Prop where
  notifier : ∀ c, weaks x = some c → c.notifier = true
  reset : ∀ c, weaks x = some c → c.ptr = none → Bare fns r ∨ .moved r true ∈ log
  registered : ∀ t tr, tks t = some tr →
    ⟨x, some .notifyObjectInvalidated⟩ ∈ tr.callbacks.callbacks → t = r

structure Registry (tks : Addr → Option Trackable) (fns : Addr → Option (Option Functor))
    (weaks : Addr → Option WeakRawPtr) (loops : List (Frame V)) (ign : List (Addr × Addr))
    (log : List Event) (next : Addr) : Prop where
  balanced : ∀ t, fns t = none → ∀ r, Balanced tks fns ign log t r
  fits : ∀ t tr, tks t = some tr → ∀ cb ∈ tr.callbacks.callbacks, cb.Fits fns weaks next
  weak : ∀ a self, weaks a = some self → a < next ∧ fns a = none
  /-- the loops over callbacks have met no rep that is still registered -/
  clearing : ∀ t pos deps, .notifying t pos deps ∈ loops → ∃ tr l, tks t = some tr ∧
    tr.callbackList = some l ∧ l.clearing = true ∧ ∀ (p : Nat) (r : Addr), p < pos →
      .moved r true ∉ log → l.callbacks[p]? ≠ some (SlotRep.binding r)
  once : (loops.filterMap Frame.notified).Nodup
  invalidating : ∀ r x, .invalidating r x ∈ loops →
    r < next ∧ x < next ∧ Notifies tks fns weaks log r x
  reason : ∀ t pos deps x, .notifying t pos deps ∈ loops → .invalidating t x ∈ loops →
    Bare fns t ∨ .moved t true ∈ log
  deleting : ∀ r, .deleting r ∈ loops → r < next ∧ Bare fns r

def functorsOf (reps : Addr → Option SlotRep) (r : Addr) : Option (Option Functor) :=
  (reps r).map (·.functor)

def loopsOf (frames : List (Frame V)) : List (Frame V) := frames.filter Frame.registers

def World.Registered (w : World V) : Prop :=
  Registry w.trackables (functorsOf w.reps) w.weaks (loopsOf w.frames) w.ignored w.log w.next

namespace Registry

variable {tks tks' : Addr → Option Trackable} {fns fns' : Addr → Option (Option Functor)}
  {weaks weaks' : Addr → Option WeakRawPtr} {loops loops' : List (Frame V)}
  {ign ign' : List (Addr × Addr)} {log log' : List Event} {next next' d : Addr}
  {func : Option DestroyNotify}

theorem reaches_of_bare {r : Addr} (h : Bare fns r) (t : Addr) : reaches fns r t = 0 := by
  rw [Bare] at h
  simp [reaches, h]

/-- The callbacks for `d` change. -/
theorem alter (h : Registry tks fns weaks loops ign log next) (hn : next ≤ next')
    (hign : ∀ p ∈ ign, p ∈ ign') (lists : Altered d func tks tks')
    (old : ∀ a < next, (weaks a = none → weaks' a = none) ∧ (fns a = none → fns' a = none) ∧
      (Bare fns a → Bare fns' a))
    (client : ∀ t, fns' t = none → fns t = none) (others : ∀ r ≠ d, fns' r = fns r)
    (own : ∀ t, fns' t = none → Balanced tks' fns' ign' log t d)
    (new : ∀ f, func = some f →
      (⟨d, some f⟩ : TrackableCallback).Fits fns' weaks' next' ∧
        (f = .notifyObjectInvalidated → ∀ r, .invalidating r d ∉ loops))
    (weak : ∀ a self, weaks' a = some self → weaks a = some self ∨
      a = d ∧ a < next' ∧ fns' a = none ∧ ∀ r, .invalidating r a ∉ loops) :
    Registry tks' fns' weaks' loops ign' log next' where
  balanced t hc r := by
    by_cases hr : r = d
    · exact hr ▸ own t hc
    -- Of another rep neither the registrations nor the functor have changed.
    · have hb := h.balanced t (client t hc) r
      have hcount : bindings tks' t r = bindings tks t r := by
        obtain ⟨hx, hy⟩ | ⟨x, y', hx, hy, halt⟩ := lists t
        · simp [bindings, callbacksOf, hx, hy]
        · simpa [bindings, callbacksOf, hx, hy] using halt.others r hr
      unfold Balanced at hb ⊢
      rw [hcount, show reaches fns' r t = reaches fns r t by rw [reaches, others r hr, reaches]]
      exact ⟨hb.1, fun hi => hb.2 fun he => hi (hign _ he)⟩
  fits t y ht cb hcb := by
    obtain ⟨-, hnone⟩ | ⟨x, y', hx, hy, halt⟩ := lists t
    · rw [hnone] at ht
      cases ht
    · obtain rfl := Option.some.inj (hy.symm.trans ht)
      by_cases hf : cb.func = none
      · simp [TrackableCallback.Fits, hf]
      -- An active callback is an old one, or the one that has been added for d.
      · obtain hold | ⟨hd, hfunc⟩ := halt.active cb hcb hf
        · obtain ⟨h₁, h₂, h₃⟩ := h.fits t x hx cb hold
          exact ⟨fun hs => ⟨Nat.lt_of_lt_of_le (h₁ hs).1 hn, (old _ (h₁ hs).1).1 (h₁ hs).2⟩,
            fun hs => ⟨Nat.lt_of_lt_of_le (h₂ hs).1 hn, (old _ (h₂ hs).1).2.1 (h₂ hs).2⟩, h₃⟩
        · obtain ⟨f, hf⟩ := Option.ne_none_iff_exists'.mp hf
          have hcb' : cb = ⟨d, some f⟩ := by rw [← hd, ← hf]
          exact hcb' ▸ (new f (hfunc.symm.trans hf)).1
  weak a self ha := by
    obtain hold | ⟨-, hlt, hnone, -⟩ := weak a self ha
    · obtain ⟨hlt, hnone⟩ := h.weak a self hold
      exact ⟨Nat.lt_of_lt_of_le hlt hn, (old a hlt).2.1 hnone⟩
    · exact ⟨hlt, hnone⟩
  clearing t pos deps hm := by
    obtain ⟨tr, l, htr, hl, hc, hpos⟩ := h.clearing t pos deps hm
    obtain ⟨hnone, -⟩ | ⟨x, y, hx, hy, halt⟩ := lists t
    · rw [hnone] at htr
      cases htr
    · obtain rfl := Option.some.inj (hx.symm.trans htr)
      -- add_callback() refuses while the list is cleared, so the loop finds no new callback behind
      -- it.
      obtain ⟨l', hl', hc', hpos'⟩ := halt.clearing l hl hc
      exact ⟨y, l', hy, hl', hc', fun p r hp hr hcb =>
        hpos p r hp hr (hpos' p _ (by simp) hcb)⟩
  once := h.once
  invalidating r x hm := by
    obtain ⟨hr, hx, hnot⟩ := h.invalidating r x hm
    have hweak : ∀ c, weaks' x = some c → weaks x = some c := fun c hc =>
      (weak x c hc).resolve_right fun hnew => hnew.2.2.2 r hm
    refine ⟨Nat.lt_of_lt_of_le hr hn, Nat.lt_of_lt_of_le hx hn,
      fun c hc => hnot.notifier c (hweak c hc),
      fun c hc hp => (hnot.reset c (hweak c hc) hp).imp_left (old r hr).2.2,
      fun t y ht hcb => ?_⟩
    obtain ⟨-, hnone⟩ | ⟨x', y', hx', hy', halt⟩ := lists t
    · rw [hnone] at ht
      cases ht
    · obtain rfl := Option.some.inj (hy'.symm.trans ht)
      obtain hold | ⟨hd, hfunc⟩ := halt.active _ hcb (by simp)
      · exact hnot.registered t x' hx' hold
      -- A new callback of a notifier is registered before its invalidation begins.
      · exact absurd (show Frame.invalidating r d ∈ loops from hd ▸ hm) ((new _ hfunc.symm).2 rfl r)
  reason t pos deps x hm hx :=
    (h.reason t pos deps x hm hx).imp_left (old t (h.invalidating t x hx).1).2.2
  deleting r hm := ⟨Nat.lt_of_lt_of_le (h.deleting r hm).1 hn,
    (old r (h.deleting r hm).1).2.2 (h.deleting r hm).2⟩

theorem setLog (h : Registry tks fns weaks loops ign log next) (hl : log ⊆ log') :
    Registry tks fns weaks loops ign log' next where
  balanced t hc r := (h.balanced t hc r).imp_right fun heq hi hr => heq hi fun hm => hr (hl hm)
  fits := h.fits
  weak := h.weak
  clearing t pos deps hm := by
    obtain ⟨tr, l, htr, hlist, hc, hpos⟩ := h.clearing t pos deps hm
    exact ⟨tr, l, htr, hlist, hc, fun p r hp hr => hpos p r hp fun hm => hr (hl hm)⟩
  once := h.once
  invalidating r x hm := by
    obtain ⟨hr, hx, hnot⟩ := h.invalidating r x hm
    exact ⟨hr, hx, { hnot with reset := fun c hc hp => (hnot.reset c hc hp).imp_right (hl ·) }⟩
  reason t pos deps x hm hx := (h.reason t pos deps x hm hx).imp_right (hl ·)
  deleting := h.deleting

/-- A frame is popped. -/
theorem pop {f : Frame V} (h : Registry tks fns weaks (f :: loops) ign log next) :
    Registry tks fns weaks loops ign log next :=
  { h with
    clearing := fun t pos deps hm => h.clearing t pos deps (List.mem_cons_of_mem f hm)
    once := h.once.sublist ((List.sublist_cons_self f loops).filterMap _)
    invalidating := fun r x hm => h.invalidating r x (List.mem_cons_of_mem f hm)
    reason := fun t pos deps x hm hx =>
      h.reason t pos deps x (List.mem_cons_of_mem f hm) (List.mem_cons_of_mem f hx)
    deleting := fun r hm => h.deleting r (List.mem_cons_of_mem f hm) }

/-! ### Reps -/

/-- An object that no functor refers to is created: a rep without a functor, or a trackable of the
client. -/
theorem create (h : Registry tks fns weaks loops ign log next) (fresh : tks next = none)
    (unused : fns next = none) {y : Option (Option Functor)} (hy : y.join = none)
    (unreached : y = none → ∀ r, reaches fns r next = 0) :
    Registry (Function.update tks next (some {})) (Function.update fns next y) weaks loops
      ign log next where
  balanced t hc r := by
    have hreach : reaches (Function.update fns next y) r t = reaches fns r t := by
      by_cases hr : r = next
      · simp [reaches, hr, unused, hy]
      · rw [reaches, Function.update_of_ne hr, reaches]
    unfold Balanced
    rw [hreach]
    -- The new object has no callbacks, and where it is a trackable nothing refers to it.
    by_cases hne : t = next
    · subst hne
      rw [Function.update_self] at hc
      rw [unreached hc r, bindings, callbacksOf_of_list_none (Function.update_self _ _ _) rfl]
      exact ⟨Nat.le_refl _, fun _ _ => rfl⟩
    · rw [Function.update_of_ne hne] at hc
      have hb := h.balanced t hc r
      unfold Balanced bindings at hb
      rwa [bindings, callbacksOf, Function.update_of_ne hne]
  fits t tr ht cb hcb := by
    obtain ⟨-, ht⟩ | ⟨-, ht⟩ := update_eq_some.mp ht
    · obtain rfl := Option.some.inj ht
      cases hcb
    · obtain ⟨h₁, h₂, h₃⟩ := h.fits t tr ht cb hcb
      refine ⟨h₁, fun hs => ⟨(h₂ hs).1, ?_⟩, h₃⟩
      rw [Function.update_of_ne (Nat.ne_of_lt (h₂ hs).1)]
      exact (h₂ hs).2
  weak a self ha := by
    obtain ⟨hlt, hnone⟩ := h.weak a self ha
    exact ⟨hlt, by rwa [Function.update_of_ne (Nat.ne_of_lt hlt)]⟩
  clearing t pos deps hm := by
    obtain ⟨tr, l, htr, hrest⟩ := h.clearing t pos deps hm
    refine ⟨tr, l, ?_, hrest⟩
    rwa [Function.update_of_ne]
    rintro rfl
    rw [fresh] at htr
    cases htr
  once := h.once
  invalidating r x hm := by
    obtain ⟨hr, hx, hnot⟩ := h.invalidating r x hm
    refine ⟨hr, hx, hnot.notifier, fun c hc hp => ?_, fun t tr ht hcb => ?_⟩
    · unfold Bare
      rw [Function.update_of_ne (Nat.ne_of_lt hr)]
      exact hnot.reset c hc hp
    · obtain ⟨-, ht⟩ | ⟨-, ht⟩ := update_eq_some.mp ht
      · obtain rfl := Option.some.inj ht
        cases hcb
      · exact hnot.registered t tr ht hcb
  reason t pos deps x hm hx := by
    unfold Bare
    rw [Function.update_of_ne (Nat.ne_of_lt (h.invalidating t x hx).1)]
    exact h.reason t pos deps x hm hx
  deleting r hm := by
    unfold Bare
    rw [Function.update_of_ne (Nat.ne_of_lt (h.deleting r hm).1)]
    exact h.deleting r hm

/-- The new rep gets the functor `f`, and is registered with the trackables in it. -/
theorem bind (h : Registry tks fns weaks loops ign log next) {f : Functor}
    (empty : fns next = some none) (unweak : weaks next = none)
    (bound : Bound next f tks ign tks' ign') :
    Registry tks' (Function.update fns next (some (some f))) weaks loops ign' log (next + 1) := by
  refine h.alter (d := next) (Nat.le_succ next) bound.grown
    (bound.changed.altered (Trackable.Alters.addCallback next _)) (fun a ha => ?_) (fun t ht => ?_)
    (fun r hr => Function.update_of_ne hr _ _) (fun t hc => ?_) (fun g hg => ?_)
    fun a self ha => .inl ha
  · unfold Bare
    rw [Function.update_of_ne (Nat.ne_of_lt ha)]
    exact ⟨id, id, id⟩
  · rwa [Function.update_of_ne] at ht
    rintro rfl
    simp at ht
  · have hne : t ≠ next := by
      rintro rfl
      simp at hc
    rw [Function.update_of_ne hne] at hc
    -- Before, the rep had no functor, so it was registered nowhere.
    have hold : bindings tks t next = 0 := by
      have hb := (h.balanced t hc next).1
      rw [reaches_of_bare (by simp [Bare, empty])] at hb
      omega
    have hreach : reaches (Function.update fns next (some (some f))) next t =
        f.count (.trackable t) := by
      simp [reaches]
    -- Now it is registered once for each reference to t, unless t refuses it.
    have hnew : bindings tks' t next =
        if (callbacksOf tks t).clearing then 0 else f.count (.trackable t) := by
      cases hx : tks t with
      | none =>
        have hk : f.count (.trackable t) = 0 := by
          by_contra hk
          obtain ⟨x, hx'⟩ := bound.alive t (by omega)
          rw [hx] at hx'
          cases hx'
        simp [bindings, callbacksOf, (bound.changed.none_iff t).mpr hx, hk]
      | some x =>
        have hx' : tks' t = some (Nat.iterate
            (Trackable.addCallback next .notifySlotRepInvalidated) (f.count (.trackable t)) x) := by
          rw [bound.changed t, hx]
          rfl
        have hcount := Trackable.count_iterate_addCallback next x (f.count (.trackable t))
        simp only [bindings, callbacksOf, hx, hx', Option.map_some, Option.getD_some] at hold ⊢
        rw [hcount, hold, Nat.zero_add]
    unfold Balanced
    rw [hnew, hreach]
    refine ⟨by split <;> omega, fun hi _ => ?_⟩
    split
    · rename_i hcl
      by_contra hk
      obtain ⟨x, hx⟩ := bound.alive t (by omega)
      exact hi (bound.refused t x hx (by omega) (by simpa [callbacksOf, hx] using hcl))
    · rfl
  · obtain rfl := Option.some.inj hg
    exact ⟨⟨fun _ => ⟨Nat.lt_succ_self next, unweak⟩, by simp, by simp⟩, by simp⟩

/-- The only active callbacks for a rep are those by which it is registered. -/
theorem only_bindings (h : Registry tks fns weaks loops ign log next) {r : Addr}
    {fo : Option Functor} (hr : fns r = some fo) (t : Addr) (x : Trackable) (hx : tks t = some x) :
    ∀ cb ∈ x.callbacks.callbacks, cb.data = r → cb.func = none ∨ cb = SlotRep.binding r := by
  intro cb hcb hd
  obtain ⟨-, hweak, hself⟩ := h.fits t x hx cb hcb
  obtain ⟨data, func⟩ := cb
  cases func with
  | none => exact .inl rfl
  | some f =>
    cases f with
    | notifySlotRepInvalidated => exact .inr (by rw [← hd])
    | notifySelfAndIterOfInvalidatedSlot => exact absurd rfl hself
    | notifyObjectInvalidated =>
      rw [← hd, (hweak rfl).2] at hr
      cases hr

/-- A rep loses its functor, and is not registered with the trackables in it any more. -/
theorem detach (h : Registry tks fns weaks loops ign log next) {r : Addr} {fo : Option Functor}
    (hr : fns r = some fo) (unbound : Unbound r (fo.getD []) tks tks') :
    Registry tks' (Function.update fns r (some none)) weaks loops ign log next := by
  refine h.alter (d := r) (Nat.le_refl _) (fun _ => id)
    (unbound.altered (Trackable.Alters.removeCallback r)) (fun a _ => ⟨id, fun ha => ?_, fun ha => ?_⟩)
    (fun t ht => ?_) (fun q hq => Function.update_of_ne hq _ _) (fun t hc => ?_)
    (fun g hg => by cases hg) fun a self ha => .inl ha
  · rwa [Function.update_of_ne]
    rintro rfl
    rw [hr] at ha
    cases ha
  · by_cases har : a = r
    · simp [Bare, har]
    · rwa [Bare, Function.update_of_ne har]
  · rwa [Function.update_of_ne] at ht
    rintro rfl
    simp at ht
  · have hne : t ≠ r := by
      rintro rfl
      simp at hc
    rw [Function.update_of_ne hne] at hc
    have hold : bindings tks t r ≤ (fo.getD []).count (.trackable t) := by
      simpa [reaches, hr] using (h.balanced t hc r).1
    -- One call of remove_callback() for each reference to t takes away every registration with t.
    have hnew : bindings tks' t r = 0 := by
      cases hx : tks t with
      | none => simp [bindings, callbacksOf, (unbound.none_iff t).mpr hx]
      | some x =>
        have hx' : tks' t = some (Nat.iterate (Trackable.removeCallback r)
            ((fo.getD []).count (.trackable t)) x) := by
          rw [unbound t, hx]
          rfl
        have hcount := Trackable.count_iterate_removeCallback (r := r) (x := x)
          (h.only_bindings hr t x hx) ((fo.getD []).count (.trackable t))
        simp only [bindings, callbacksOf, hx, hx', Option.map_some, Option.getD_some] at hold ⊢
        omega
    have hbare : Bare (Function.update fns r (some none)) r := by simp [Bare]
    unfold Balanced
    rw [hnew, reaches_of_bare hbare]
    exact ⟨Nat.le_refl _, fun _ _ => rfl⟩

/-- A trackable is destroyed, which has no callbacks and no functor. -/
theorem erase (h : Registry tks fns weaks loops ign log next) {t : Addr} {tr : Trackable}
    (ht : tks t = some tr) (hl : tr.callbackList = none) (bare : Bare fns t)
    (unreached : fns t = none ∨ ∀ r, reaches fns r t = 0) :
    Registry (Function.update tks t none) (Function.update fns t none) weaks loops ign log next := by
  have hbare : ∀ r, Bare fns r → Bare (Function.update fns t none) r := by
    intro r hr
    by_cases hrt : r = t
    · simp [Bare, hrt]
    · rwa [Bare, Function.update_of_ne hrt]
  have hnone : ∀ r, fns r = none → Function.update fns t none r = none := by
    intro r hr
    by_cases hrt : r = t
    · simp [hrt]
    · rwa [Function.update_of_ne hrt]
  refine
    { balanced := fun t' hc r => ?_
      fits := fun t' tr' ht' cb hcb => ?_
      weak := fun a self ha => ⟨(h.weak a self ha).1, hnone a (h.weak a self ha).2⟩
      clearing := fun t' pos deps hm => ?_
      once := h.once
      invalidating := fun r x hm => ?_
      reason := fun t' pos deps x hm hx => (h.reason t' pos deps x hm hx).imp_left (hbare t')
      deleting := fun r hm => (h.deleting r hm).imp_right (hbare r) }
  -- The trackable had no callback list, so no registration goes with it.
  · have hreach : reaches (Function.update fns t none) r t' = reaches fns r t' := by
      by_cases hrt : r = t
      · rw [hrt, reaches_of_bare bare, reaches_of_bare (hbare t bare)]
      · rw [reaches, Function.update_of_ne hrt, reaches]
    have hcount : bindings (Function.update tks t none) t' r = bindings tks t' r := by
      by_cases htt : t' = t
      · rw [htt, bindings, bindings, callbacksOf_of_list_none ht hl,
          callbacksOf_of_eq_none (Function.update_self _ _ _)]
      · rw [bindings, callbacksOf, Function.update_of_ne htt, bindings, callbacksOf]
    unfold Balanced
    rw [hreach, hcount]
    by_cases htt : t' = t
    · obtain hclient | hzero := unreached
      · exact h.balanced t' (htt ▸ hclient) r
      · rw [htt, hzero r, bindings, callbacksOf_of_list_none ht hl]
        exact ⟨Nat.le_refl _, fun _ _ => rfl⟩
    · rw [Function.update_of_ne htt] at hc
      exact h.balanced t' hc r
  · obtain ⟨-, hno⟩ | ⟨-, ht'⟩ := update_eq_some.mp ht'
    · cases hno
    · exact (h.fits t' tr' ht' cb hcb).imp_right fun hf =>
        hf.imp_left fun hw hs => (hw hs).imp_right (hnone _)
  -- A loop needs a callback list, so it is not over the trackable that goes.
  · obtain ⟨tr', l, htr', hl', hrest⟩ := h.clearing t' pos deps hm
    refine ⟨tr', l, ?_, hl', hrest⟩
    rwa [Function.update_of_ne]
    rintro rfl
    obtain rfl := Option.some.inj (ht.symm.trans htr')
    rw [hl] at hl'
    cases hl'
  · obtain ⟨hr, hx, hnot⟩ := h.invalidating r x hm
    refine ⟨hr, hx, hnot.notifier, fun c hc hp => (hnot.reset c hc hp).imp_left (hbare r),
      fun t' tr' ht' hcb => ?_⟩
    obtain ⟨-, hno⟩ | ⟨-, ht'⟩ := update_eq_some.mp ht'
    · cases hno
    · exact hnot.registered t' tr' ht' hcb

theorem mono (h : Registry tks fns weaks loops ign log next) (hn : next ≤ next') :
    Registry tks fns weaks loops ign log next' :=
  { h with
    fits := fun t tr ht cb hcb => by
      obtain ⟨h₁, h₂, h₃⟩ := h.fits t tr ht cb hcb
      exact ⟨fun hs => (h₁ hs).imp_left (Nat.lt_of_lt_of_le · hn),
        fun hs => (h₂ hs).imp_left (Nat.lt_of_lt_of_le · hn), h₃⟩
    weak := fun a self ha => (h.weak a self ha).imp_left (Nat.lt_of_lt_of_le · hn)
    invalidating := fun r x hm => by
      obtain ⟨hr, hx, hnot⟩ := h.invalidating r x hm
      exact ⟨Nat.lt_of_lt_of_le hr hn, Nat.lt_of_lt_of_le hx hn, hnot⟩
    deleting := fun r hm => (h.deleting r hm).imp_left (Nat.lt_of_lt_of_le · hn) }

/-- A trackable changes, but not its list of callbacks. -/
theorem setTrackable (h : Registry tks fns weaks loops ign log next) {t : Addr}
    {tr x : Trackable} (ht : tks t = some tr) (hx : x.callbackList = tr.callbackList) :
    Registry (Function.update tks t (some x)) fns weaks loops ign log next := by
  have hcb : x.callbacks = tr.callbacks := by simp [Trackable.callbacks, hx]
  have hlists : callbacksOf (Function.update tks t (some x)) = callbacksOf tks := by
    funext t'
    by_cases htt : t' = t
    · simp [callbacksOf, htt, ht, hcb]
    · rw [callbacksOf, Function.update_of_ne htt, callbacksOf]
  have hold : ∀ t' y, Function.update tks t (some x) t' = some y →
      ∃ y', tks t' = some y' ∧ y.callbacks = y'.callbacks := by
    intro t' y hy
    obtain ⟨htt, hxy⟩ | ⟨-, hy'⟩ := update_eq_some.mp hy
    · exact ⟨tr, htt ▸ ht, Option.some.inj hxy ▸ hcb⟩
    · exact ⟨y, hy', rfl⟩
  refine { h with
    balanced := fun t' hc r => ?_
    fits := fun t' y hy cb hm => ?_
    clearing := fun t' pos deps hm => ?_
    invalidating := fun r x' hm => ?_ }
  · have hb := h.balanced t' hc r
    unfold Balanced bindings at hb ⊢
    rwa [hlists]
  · obtain ⟨y', hy', hsame⟩ := hold t' y hy
    exact h.fits t' y' hy' cb (hsame ▸ hm)
  · obtain ⟨tr', l, htr', hl, hrest⟩ := h.clearing t' pos deps hm
    by_cases htt : t' = t
    · subst htt
      obtain rfl := Option.some.inj (ht.symm.trans htr')
      exact ⟨x, l, Function.update_self _ _ _, hx.trans hl, hrest⟩
    · exact ⟨tr', l, by rwa [Function.update_of_ne htt], hl, hrest⟩
  · obtain ⟨hr, hx', hnot⟩ := h.invalidating r x' hm
    refine ⟨hr, hx', { hnot with registered := fun t' y hy hm => ?_ }⟩
    obtain ⟨y', hy', hsame⟩ := hold t' y hy
    exact hnot.registered t' y' hy' (hsame ▸ hm)

/-! ### Weak pointers -/

/-- The callbacks of a weak pointer change, or of one that is going to be at `c`. -/
theorem alterWeak (h : Registry tks fns weaks loops ign log next) (hn : next ≤ next')
    (hign : ∀ p ∈ ign, p ∈ ign') {c : Addr} (lists : Altered c func tks tks')
    (hf : func = none ∨ func = some .notifyObjectInvalidated) (hc : c < next') (unused : fns c = none)
    (unbound : ∀ t tr, tks t = some tr → SlotRep.binding c ∉ tr.callbacks.callbacks)
    (idle : ∀ r, .invalidating r c ∈ loops → func = none ∧ weaks' c = none)
    (old : ∀ a < next, weaks a = none → weaks' a = none)
    (others : ∀ a ≠ c, weaks' a = weaks a ) :
    Registry tks' fns weaks' loops ign' log next' := by
  refine h.alter hn hign lists (fun a ha => ⟨old a ha, id, id⟩) (fun _ => id) (fun _ _ => rfl)
    (fun t hcl => ?_) (fun f hfunc => ?_) fun a self ha => ?_
  · have hzero : bindings tks' t c = 0 := by
      obtain ⟨-, hnone⟩ | ⟨x, y', hx, hy, halt⟩ := lists t
      · simp [bindings, callbacksOf, hnone]
      · simp only [bindings, callbacksOf, hy, Option.map_some, Option.getD_some]
        refine List.count_eq_zero.mpr fun hm => ?_
        obtain hold | ⟨-, hfunc⟩ := halt.active _ hm (by simp)
        · exact unbound t x hx hold
        · obtain rfl | rfl := hf <;> cases hfunc
    have hbare : Bare fns c := by simp [Bare, unused]
    unfold Balanced
    rw [hzero, reaches_of_bare hbare]
    exact ⟨Nat.le_refl _, fun _ _ => rfl⟩
  · obtain rfl := (Option.some.inj (hfunc.symm.trans (hf.resolve_left (by simp [hfunc]))))
    refine ⟨⟨by simp, fun _ => ⟨hc, unused⟩, by simp⟩, fun _ r hm => ?_⟩
    rw [(idle r hm).1] at hfunc
    cases hfunc
  · by_cases hac : a = c
    · subst hac
      refine .inr ⟨rfl, hc, unused, fun r hm => ?_⟩
      rw [(idle r hm).2] at ha
      cases ha
    · exact .inl (others a hac ▸ ha)

theorem unbound_of_weak (h : Registry tks fns weaks loops ign log next) {c : Addr}
    {self : WeakRawPtr} (hc : weaks c = some self) (t : Addr) (tr : Trackable)
    (ht : tks t = some tr) : SlotRep.binding c ∉ tr.callbacks.callbacks := by
  intro hm
  rw [((h.fits t tr ht _ hm).1 rfl).2] at hc
  cases hc

/-- A weak pointer is taken off the list that it is registered with, and perhaps destroyed. -/
theorem unregister (h : Registry tks fns weaks loops ign log next) {c : Addr} {self : WeakRawPtr}
    (hc : weaks c = some self) {k : Addr → Nat} (hch : Changed (Trackable.removeCallback c) k tks tks')
    {y : Option WeakRawPtr} (hy : y = none ∨ ∀ r, .invalidating r c ∉ loops) :
    Registry tks' fns (Function.update weaks c y) loops ign log next := by
  refine h.alterWeak (Nat.le_refl _) (fun _ => id)
    (hch.altered (Trackable.Alters.removeCallback c)) (.inl rfl) (h.weak c self hc).1
    (h.weak c self hc).2 (h.unbound_of_weak hc) (fun r hm => ⟨rfl, ?_⟩)
    (fun a _ ha => ?_) fun a ha => Function.update_of_ne ha _ _
  · rw [Function.update_self]
    exact hy.resolve_right fun hidle => hidle r hm
  · rwa [Function.update_of_ne]
    rintro rfl
    rw [hc] at ha
    cases ha

/-- A weak pointer is registered, and perhaps created. -/
theorem register (h : Registry tks fns weaks loops ign log next) (hn : next ≤ next') {c : Addr}
    {x : WeakRawPtr} {k : Addr → Nat}
    (hreg : Registered c .notifyObjectInvalidated k tks ign tks' ign')
    (hc : (∃ self, weaks c = some self ∧ ∀ r, .invalidating r c ∉ loops) ∨
      c = next ∧ next < next' ∧ fns c = none) :
    Registry tks' fns (Function.update weaks c (some x)) loops ign' log next' := by
  have hmono := h.mono hn
  have hfacts : c < next' ∧ fns c = none ∧ (∀ r, .invalidating r c ∉ loops) ∧
      ∀ t tr, tks t = some tr → SlotRep.binding c ∉ tr.callbacks.callbacks := by
    obtain ⟨self, hself, hidle⟩ | ⟨rfl, hlt, hnone⟩ := hc
    · exact ⟨(hmono.weak c self hself).1, (h.weak c self hself).2, hidle, h.unbound_of_weak hself⟩
    · exact ⟨hlt, hnone, fun r hm => Nat.lt_irrefl _ (h.invalidating r c hm).2.1,
        fun t tr ht hm => Nat.lt_irrefl _ ((h.fits t tr ht _ hm).1 rfl).1⟩
  obtain ⟨hlt, hnone, hidle, hunbound⟩ := hfacts
  refine h.alterWeak hn hreg.grown (hreg.changed.altered (Trackable.Alters.addCallback c _))
    (.inr rfl) hlt hnone hunbound (fun r hm => absurd hm (hidle r)) (fun a hlt ha => ?_)
    fun a ha => Function.update_of_ne ha _ _
  rwa [Function.update_of_ne]
  rintro rfl
  obtain ⟨self, hself, -⟩ | ⟨rfl, -⟩ := hc
  · rw [ha] at hself
    cases hself
  · exact Nat.lt_irrefl _ hlt

/-! ### Loops -/

variable {t pos : Addr} {deps : List Dependent} {tr : Trackable} {l : TrackableCallbackList}

theorem beginNotify (h : Registry tks fns weaks loops ign log next) (ht : tks t = some tr)
    (hl : tr.callbackList = some l) (idle : l.clearing = false)
    (reason : ∀ x, .invalidating t x ∈ loops → Bare fns t ∨ .moved t true ∈ log) :
    Registry (Function.update tks t
      (some { tr with callbackList := some { l with clearing := true } })) fns weaks
        (.notifying t 0 deps :: loops) ign log next := by
  -- No loop runs over t yet: its list is not being cleared.
  have hfresh : ∀ pos deps, .notifying t pos deps ∉ loops := by
    intro pos deps hm
    obtain ⟨tr', l', htr', hl', hc, -⟩ := h.clearing t pos deps hm
    obtain rfl := Option.some.inj (ht.symm.trans htr')
    obtain rfl := Option.some.inj (hl.symm.trans hl')
    rw [idle] at hc
    cases hc
  -- Only the flag of t's list has changed.
  have hold : ∀ t' y, Function.update tks t
      (some { tr with callbackList := some { l with clearing := true } }) t' = some y →
        ∃ y', tks t' = some y' ∧ y.callbacks.callbacks = y'.callbacks.callbacks := by
    intro t' y hy
    obtain ⟨htt, hxy⟩ | ⟨-, hy'⟩ := update_eq_some.mp hy
    · obtain rfl := Option.some.inj hxy
      exact ⟨tr, htt ▸ ht, by simp [Trackable.callbacks, hl]⟩
    · exact ⟨y, hy', rfl⟩
  refine
    { balanced := fun t' hc r => ?_
      fits := fun t' y hy cb hm => ?_
      weak := h.weak
      clearing := fun t' pos' deps' hm => ?_
      once := ?_
      invalidating := fun r x hm => ?_
      reason := fun t' pos' deps' x hm hx => ?_
      deleting := fun r hm => h.deleting r ((List.mem_cons.mp hm).resolve_left (by simp)) }
  · have hb := h.balanced t' hc r
    have hcount : bindings (Function.update tks t
        (some { tr with callbackList := some { l with clearing := true } })) t' r =
          bindings tks t' r := by
      by_cases htt : t' = t
      · rw [htt, bindings, bindings, callbacksOf_of_list ht hl,
          callbacksOf_of_list (Function.update_self _ _ _) rfl]
      · rw [bindings, callbacksOf, Function.update_of_ne htt, bindings, callbacksOf]
    unfold Balanced at hb ⊢
    rwa [hcount]
  · obtain ⟨y', hy', hsame⟩ := hold t' y hy
    exact h.fits t' y' hy' cb (hsame ▸ hm)
  · obtain heq | hm := List.mem_cons.mp hm
    · obtain ⟨rfl, rfl, rfl⟩ := Frame.notifying.inj heq
      -- The new loop has not passed any callback.
      exact ⟨_, _, Function.update_self _ _ _, rfl, rfl, fun p r hp => absurd hp (Nat.not_lt_zero p)⟩
    · obtain ⟨tr', l', htr', hrest⟩ := h.clearing t' pos' deps' hm
      have hne : t' ≠ t := fun htt => hfresh pos' deps' (htt ▸ hm)
      exact ⟨tr', l', by rwa [Function.update_of_ne hne], hrest⟩
  · refine List.nodup_cons.mpr ⟨fun hm => ?_, h.once⟩
    obtain ⟨f, hf, hft⟩ := List.mem_filterMap.mp hm
    cases f with
    | notifying t' pos' deps' =>
      obtain rfl := Option.some.inj hft
      exact hfresh pos' deps' hf
    | _ => cases hft
  · obtain ⟨hr, hx, hnot⟩ := h.invalidating r x ((List.mem_cons.mp hm).resolve_left (by simp))
    refine ⟨hr, hx, { hnot with registered := fun t' y hy hm => ?_ }⟩
    obtain ⟨y', hy', hsame⟩ := hold t' y hy
    exact hnot.registered t' y' hy' (hsame ▸ hm)
  · have hx' := (List.mem_cons.mp hx).resolve_left (by simp)
    obtain heq | hm := List.mem_cons.mp hm
    · obtain ⟨htt, -, -⟩ := Frame.notifying.inj heq
      exact htt ▸ reason x (htt ▸ hx')
    · exact h.reason t' pos' deps' x hm hx'

/-- The loop goes past a callback: no rep is registered by it any more. -/
theorem advance (h : Registry tks fns weaks (.notifying t pos deps :: loops) ign log next)
    (ht : tks t = some tr) (hl : tr.callbackList = some l)
    (passed : ∀ r, .moved r true ∉ log → l.callbacks[pos]? ≠ some (SlotRep.binding r)) :
    Registry tks fns weaks (.notifying t (pos + 1) deps :: loops) ign log next := by
  have hother {f : Frame V} (hm : f ∈ (.notifying t (pos + 1) deps :: loops))
      (hf : f.notified = none) : f ∈ (.notifying t pos deps :: loops) := by
    obtain rfl | hm := List.mem_cons.mp hm
    · cases hf
    · exact List.mem_cons_of_mem _ hm
  refine { h with
    clearing := fun t' pos' deps' hm => ?_
    once := h.once
    invalidating := fun r x hm => h.invalidating r x (hother hm rfl)
    reason := fun t' pos' deps' x hm hx => ?_
    deleting := fun r hm => h.deleting r (hother hm rfl) }
  · obtain heq | hm := List.mem_cons.mp hm
    · obtain ⟨rfl, rfl, rfl⟩ := Frame.notifying.inj heq
      obtain ⟨tr', l', htr', hl', hc, hpos⟩ := h.clearing t' pos deps' List.mem_cons_self
      obtain rfl := Option.some.inj (ht.symm.trans htr')
      obtain rfl := Option.some.inj (hl.symm.trans hl')
      refine ⟨tr, l, ht, hl, hc, fun p r hp hr => ?_⟩
      -- Behind the loop is what was behind it, and the callback that it has just passed.
      obtain hlt | rfl := Nat.lt_succ_iff_lt_or_eq.mp hp
      · exact hpos p r hlt hr
      · exact passed r hr
    · exact h.clearing t' pos' deps' (List.mem_cons_of_mem _ hm)
  · have hx' := hother hx rfl
    obtain heq | hm := List.mem_cons.mp hm
    · obtain ⟨rfl, -, -⟩ := Frame.notifying.inj heq
      exact h.reason t' pos deps x List.mem_cons_self hx'
    · exact h.reason t' pos' deps' x (List.mem_cons_of_mem _ hm) hx'

theorem endNotify (h : Registry tks fns weaks (.notifying t pos deps :: loops) ign log next)
    (ht : tks t = some tr) (hl : tr.callbackList = some l) (done : l.callbacks[pos]? = none) :
    Registry (Function.update tks t (some { tr with callbackList := none })) fns weaks loops ign log
      next := by
  have hpop := h.pop
  have hnodup := List.nodup_cons.mp h.once
  have hnone : callbacksOf (Function.update tks t (some { tr with callbackList := none })) t = {} :=
    callbacksOf_of_list_none (Function.update_self _ _ _) rfl
  -- The loop has come to the end, so every position of the list is behind it.
  have hzero : ∀ r, .moved r true ∉ log → bindings tks t r = 0 := by
    intro r hr
    obtain ⟨tr', l', htr', hl', -, hpos⟩ := h.clearing t pos deps List.mem_cons_self
    obtain rfl := Option.some.inj (ht.symm.trans htr')
    obtain rfl := Option.some.inj (hl.symm.trans hl')
    rw [bindings, callbacksOf_of_list ht hl]
    refine List.count_eq_zero.mpr fun hm => ?_
    obtain ⟨p, hp⟩ := List.getElem?_of_mem hm
    have hlt : p < pos := by
      have hlen := List.getElem?_eq_none_iff.mp done
      have hplen := (List.getElem?_eq_some_iff.mp hp).1
      omega
    exact hpos p r hlt hr hp
  -- The list of t is empty now, and the others are as before.
  have hold : ∀ t' y, Function.update tks t (some { tr with callbackList := none }) t' = some y →
      (t' = t ∧ y.callbacks.callbacks = []) ∨ (t' ≠ t ∧ tks t' = some y) := by
    intro t' y hy
    obtain ⟨htt, hxy⟩ | hne := update_eq_some.mp hy
    · exact .inl ⟨htt, Option.some.inj hxy ▸ rfl⟩
    · exact .inr hne
  refine { hpop with
    balanced := fun t' hc r => ?_
    fits := fun t' y hy cb hm => ?_
    clearing := fun t' pos' deps' hm => ?_
    invalidating := fun r x hm => ?_ }
  · have hb := h.balanced t' hc r
    unfold Balanced at hb ⊢
    by_cases htt : t' = t
    · subst htt
      rw [bindings, hnone]
      refine ⟨Nat.zero_le _, fun hi hr => ?_⟩
      -- The registrations were as many as the references, and they were none already.
      rw [← hb.2 hi hr, hzero r hr]
      rfl
    · rwa [bindings, callbacksOf, Function.update_of_ne htt]
  · obtain ⟨-, hnil⟩ | ⟨-, hy'⟩ := hold t' y hy
    · rw [hnil] at hm
      cases hm
    · exact h.fits t' y hy' cb hm
  · obtain ⟨tr', l', htr', hrest⟩ := hpop.clearing t' pos' deps' hm
    have hne : t' ≠ t := by
      rintro rfl
      exact hnodup.1 (List.mem_filterMap.mpr ⟨_, hm, rfl⟩)
    exact ⟨tr', l', by rwa [Function.update_of_ne hne], hrest⟩
  · obtain ⟨hr, hx, hnot⟩ := hpop.invalidating r x hm
    refine ⟨hr, hx, { hnot with registered := fun t' y hy hm => ?_ }⟩
    obtain ⟨-, hnil⟩ | ⟨-, hy'⟩ := hold t' y hy
    · rw [hnil] at hm
      cases hm
    · exact hnot.registered t' y hy' hm

/-- The loop over the callbacks of `t` resets a weak pointer. -/
theorem reset (h : Registry tks fns weaks loops ign log next)
    (hm : .notifying t pos deps ∈ loops) (ht : tks t = some tr) (hl : tr.callbackList = some l)
    {x : Addr} {c : WeakRawPtr} (element : ⟨x, some .notifyObjectInvalidated⟩ ∈ l.callbacks)
    (hc : weaks x = some c) :
    Registry tks fns (Function.update weaks x (some { c with ptr := none })) loops ign log next := by
  have hcb : tr.callbacks = l := by simp [Trackable.callbacks, hl]
  refine { h with
    fits := fun t' y hy cb hcb => ?_
    weak := fun a self ha => ?_
    invalidating := fun r x' hx => ?_ }
  · obtain ⟨h₁, h₂, h₃⟩ := h.fits t' y hy cb hcb
    refine ⟨fun hs => ⟨(h₁ hs).1, ?_⟩, h₂, h₃⟩
    rw [Function.update_of_ne]
    · exact (h₁ hs).2
    · rintro rfl
      rw [(h₁ hs).2] at hc
      cases hc
  · obtain ⟨rfl, -⟩ | ⟨-, ha⟩ := update_eq_some.mp ha
    · exact h.weak a c hc
    · exact h.weak a self ha
  · obtain ⟨hr, hx', hnot⟩ := h.invalidating r x' hx
    refine ⟨hr, hx', fun c' hc' => ?_, fun c' hc' hp => ?_, hnot.registered⟩
    · obtain ⟨rfl, hcc⟩ | ⟨-, hc'⟩ := update_eq_some.mp hc'
      · obtain rfl := Option.some.inj hcc
        exact hnot.notifier c hc
      · exact hnot.notifier c' hc'
    · obtain ⟨rfl, hcc⟩ | ⟨-, hc'⟩ := update_eq_some.mp hc'
      · obtain rfl := hnot.registered t tr ht (hcb ▸ element)
        exact h.reason t pos deps x' hm hx
      · exact hnot.reset c' hc' hp

/-! ### Invalidations and deletions -/

theorem pushInvalidating (h : Registry tks fns weaks loops ign log next) {r x : Addr}
    (hr : r < next) (hx : x < next) (hnot : Notifies tks fns weaks log r x)
    (reason : ∀ pos deps, .notifying r pos deps ∉ loops) :
    Registry tks fns weaks (.invalidating r x :: loops) ign log next :=
  { h with
    clearing := fun t pos deps hm =>
      h.clearing t pos deps ((List.mem_cons.mp hm).resolve_left (by simp))
    once := h.once
    invalidating := fun r' x' hm => by
      obtain heq | hm := List.mem_cons.mp hm
      · obtain ⟨rfl, rfl⟩ := Frame.invalidating.inj heq
        exact ⟨hr, hx, hnot⟩
      · exact h.invalidating r' x' hm
    reason := fun t pos deps x' hm hx' => by
      have hm' := (List.mem_cons.mp hm).resolve_left (by simp)
      obtain heq | hold := List.mem_cons.mp hx'
      · obtain ⟨htr, -⟩ := Frame.invalidating.inj heq
        exact absurd (htr ▸ hm') (reason pos deps)
      · exact h.reason t pos deps x' hm' hold
    deleting := fun r' hm => h.deleting r' ((List.mem_cons.mp hm).resolve_left (by simp)) }

theorem pushDeleting (h : Registry tks fns weaks loops ign log next) {r : Addr}
    (hr : r < next) (bare : Bare fns r) :
    Registry tks fns weaks (.deleting r :: loops) ign log next :=
  { h with
    clearing := fun t pos deps hm =>
      h.clearing t pos deps ((List.mem_cons.mp hm).resolve_left (by simp))
    once := h.once
    invalidating := fun r' x' hm =>
      h.invalidating r' x' ((List.mem_cons.mp hm).resolve_left (by simp))
    reason := fun t pos deps x' hm hx' => h.reason t pos deps x'
      ((List.mem_cons.mp hm).resolve_left (by simp)) ((List.mem_cons.mp hx').resolve_left (by simp))
    deleting := fun r' hm => by
      obtain heq | hm := List.mem_cons.mp hm
      · obtain rfl := Frame.deleting.inj heq
        exact ⟨hr, bare⟩
      · exact h.deleting r' hm }

end Registry

end Sigc
