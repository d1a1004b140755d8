import Sigc.ClientRuns
import Sigc.Tracking

/-!
# Scoped connections

`scoped_connection`, from `scoped_connection.cc`: an object with one `connection`, `conn_`, and at
its address.  A `connection` has no move operations, so that moving one copies it.
-/

namespace Sigc

open Reasoning Prog

variable {V : Type} {T : World V → Prop} {u : Env V} {w w' : World V}

namespace Connection

/-- `connection(const connection&)`. -/
def copy (c : Addr) : M V Addr := do
  let src ← loadWeak c
  WeakRawPtr.construct src.ptr false

/-- `std::exchange(c, connection())`, with the temporary that is its second argument. -/
def exchange (c : Addr) : M V Addr := do
  let new ← WeakRawPtr.construct none false
  let old ← copy c
  WeakRawPtr.assign c new
  WeakRawPtr.destroy new
  pure old

end Connection

namespace ScopedConnection

/-- `scoped_connection(connection)`, the argument of which is a copy. -/
def construct (c : Addr) : M V Addr := do
  let param ← Connection.copy c
  let conn ← Connection.copy param
  WeakRawPtr.destroy param
  pure conn

/-- `operator=(connection)`. -/
def assign (u : Env V) (conn c : Addr) : M V Unit := do
  let param ← Connection.copy c
  Connection.disconnect u conn
  WeakRawPtr.assign conn param
  WeakRawPtr.destroy param

def moveConstruct (sc : Addr) : M V Addr := Connection.exchange sc

def moveAssign (u : Env V) (conn sc : Addr) : M V Unit := do
  Connection.disconnect u conn
  let old ← Connection.exchange sc
  WeakRawPtr.assign conn old
  WeakRawPtr.destroy old

def destroy (u : Env V) (conn : Addr) : M V Unit := do
  Connection.disconnect u conn
  WeakRawPtr.destroy conn

def disconnect (u : Env V) (conn : Addr) : M V Unit := Connection.disconnect u conn

/-- `swap()`, by `std::swap()` of the two `conn_`. -/
def swap (sca scb : Addr) : M V Unit := do
  let tmp ← Connection.copy sca
  WeakRawPtr.assign sca scb
  WeakRawPtr.assign scb tmp
  WeakRawPtr.destroy tmp

def release (conn : Addr) : M V Addr := Connection.exchange conn

end ScopedConnection

/-! ## What they do to the connections -/

/-- Only connections have changed, to `weaks`, and each is registered as it should be. -/
structure Rewired (w w' : World V) (weaks : Addr → Option WeakRawPtr) : Prop where
  steps : Steps w w'
  slots : w'.slots = w.slots
  reps : w'.reps = w.reps
  frames : w'.frames = w.frames
  weaks : w'.weaks = weaks
  tracks : ∀ c, w.Tracks c → w'.Tracks c

theorem Rewired.sane {weaks : Addr → Option WeakRawPtr} (h : Rewired w w' weaks) (hw : w.Sane) :
    w'.Sane := h.steps.sane hw

theorem Rewired.user {weaks : Addr → Option WeakRawPtr} (h : Rewired w w' weaks)
    (user : w.UserPoint) : w'.UserPoint := user.of_frames h.frames

theorem Rewired.trans {w₁ : World V} {weaks weaks' : Addr → Option WeakRawPtr}
    (h : Rewired w w₁ weaks) (h' : Rewired w₁ w' weaks') : Rewired w w' weaks' where
  steps := h.steps.trans h'.steps
  slots := h'.slots.trans h.slots
  reps := h'.reps.trans h.reps
  frames := h'.frames.trans h.frames
  weaks := h'.weaks
  tracks c hc := h'.tracks c (h.tracks c hc)

variable {p q : Option WeakTarget}

theorem construct_rewired {k : Addr} (hw : w.Sane) (user : w.UserPoint)
    (source : w.Source p) (hp : ∀ r, p ≠ some (.rep r))
    (run : WeakRawPtr.construct p false w = (.ret k, w')) :
    w.next ≤ k ∧ Rewired w w' (Function.update w.weaks k (pointing p)) := by
  have hstep : Steps w w' := .single (.weak (.construct user source run))
  have htracks := fun c => WeakRawPtr.construct_tracks (c := c) hw hp run
  obtain ⟨rfl, tks, ign, rfl, -⟩ := WeakRawPtr.construct_effect run
  exact ⟨Nat.le_refl _, hstep, rfl, rfl, rfl, rfl, htracks⟩

theorem copy_rewired {c k : Addr} (hw : w.Sane) (user : w.UserPoint) (weak : w.weaks c = pointing p)
    (hp : ∀ r, p ≠ some (.rep r)) (run : Connection.copy c w = (.ret k, w')) :
    w.next ≤ k ∧ Rewired w w' (Function.update w.weaks k (pointing p)) := by
  obtain ⟨self, w₁, hload, hrun⟩ := bind_eq_ret.mp run
  obtain ⟨hself, hw₁⟩ := deref_eq_ret.mp hload
  subst hw₁
  obtain rfl := Option.some.inj (weak.symm.trans hself)
  exact construct_rewired hw user (fun s hs => .inr (.inr ⟨c, _, weak, rfl⟩)) hp hrun

theorem assign_rewired {c src : Addr} (hw : w.Sane) (user : w.UserPoint)
    (weak : w.weaks c = pointing p) (from_ : w.weaks src = pointing q)
    (hq : ∀ r, q ≠ some (.rep r)) (run : WeakRawPtr.assign c src w = (.ret (), w')) :
    Rewired w w' (Function.update w.weaks c (pointing q)) := by
  have hstep : Steps w w' := .single (.weak (.assign user ⟨weak, rfl⟩ run))
  have htracks := fun x => WeakRawPtr.assign_tracks (c := x) hw user weak from_ hq run
  obtain ⟨mid, tks, ign, self, other, hself, hother, rfl, -⟩ := WeakRawPtr.assign_effect run
  obtain rfl := Option.some.inj (weak.symm.trans hself)
  obtain rfl := Option.some.inj (from_.symm.trans hother)
  exact ⟨hstep, rfl, rfl, rfl, rfl, htracks⟩

theorem destroy_rewired {c : Addr} (hw : w.Sane) (user : w.UserPoint)
    (weak : w.weaks c = pointing p) (run : WeakRawPtr.destroy c w = (.ret (), w')) :
    Rewired w w' (Function.update w.weaks c none) := by
  have hstep : Steps w w' := .single (.weak (.destroy user ⟨weak, rfl⟩ run))
  have htracks := fun x => WeakRawPtr.destroy_tracks (c := x) hw user weak run
  obtain ⟨tks, self, -, rfl, -⟩ := WeakRawPtr.destroy_effect run
  exact ⟨hstep, rfl, rfl, rfl, rfl, htracks⟩

/-- The pointer moves to the connection that is returned. -/
theorem exchange_rewired {c k : Addr} (hw : w.Sane) (user : w.UserPoint)
    (weak : w.weaks c = pointing p) (hp : ∀ r, p ≠ some (.rep r))
    (run : Connection.exchange c w = (.ret k, w')) :
    w.next ≤ k ∧
      Rewired w w' (Function.update (Function.update w.weaks c (pointing none)) k (pointing p)) := by
  -- std::exchange(c, connection()): the argument, the old value, the assignment, the end of the
  -- argument.
  obtain ⟨new, w₁, hnew, run₁⟩ := bind_eq_ret.mp run
  obtain ⟨old, w₂, hold, run₂⟩ := bind_eq_ret.mp run₁
  obtain ⟨_, w₃, hassign, run₃⟩ := bind_eq_ret.mp run₂
  obtain ⟨_, w₄, hdestroy, run₄⟩ := bind_eq_ret.mp run₃
  obtain ⟨rfl, rfl⟩ := pure_eq_ret.mp run₄
  obtain ⟨new₁, h₁⟩ := construct_rewired hw user (fun s hs => by cases hs) (by simp) hnew
  have free₁ := hw.sound.weaks.eq_none new₁
  -- The three connections are distinct objects.
  have hcn : c ≠ new := by
    rintro rfl
    rw [free₁] at weak
    cases weak
  have weak₁ : w₁.weaks c = pointing p := by rw [h₁.weaks, Function.update_of_ne hcn, weak]
  have sane₁ := h₁.sane hw
  obtain ⟨new₂, h₂⟩ := copy_rewired sane₁ (h₁.user user) weak₁ hp hold
  have free₂ := sane₁.sound.weaks.eq_none new₂
  have hco : c ≠ old := by
    rintro rfl
    rw [free₂] at weak₁
    cases weak₁
  have hon : old ≠ new := by
    rintro rfl
    rw [h₁.weaks, Function.update_self] at free₂
    cases free₂
  have sane₂ := h₂.sane sane₁
  have user₂ := h₂.user (h₁.user user)
  have h₃ := assign_rewired (p := p) (q := none) sane₂ user₂
    (by rw [h₂.weaks, Function.update_of_ne hco, weak₁])
    (by rw [h₂.weaks, Function.update_of_ne hon.symm, h₁.weaks, Function.update_self]) (by simp)
    hassign
  have h₄ := destroy_rewired (p := none) (h₃.sane sane₂) (h₃.user user₂)
    (by rw [h₃.weaks, Function.update_of_ne hcn.symm, h₂.weaks, Function.update_of_ne hon.symm,
      h₁.weaks, Function.update_self]) hdestroy
  refine ⟨Nat.le_trans (h₁.steps.proceeds hw.sound).extension.next new₂, ?_⟩
  have hall := ((h₁.trans h₂).trans h₃).trans h₄
  refine { hall with weaks := hall.weaks.trans ?_ }
  rw [h₃.weaks, h₂.weaks, h₁.weaks]
  funext x
  simp only [Function.update_apply]
  grind

namespace ScopedConnection

theorem construct_rewired {c k : Addr} (hw : w.Sane) (user : w.UserPoint)
    (weak : w.weaks c = pointing p) (hp : ∀ r, p ≠ some (.rep r))
    (run : construct c w = (.ret k, w')) :
    w.next ≤ k ∧ Rewired w w' (Function.update w.weaks k (pointing p)) := by
  -- The parameter, the member, and the end of the parameter.
  obtain ⟨param, w₁, hparam, run₁⟩ := bind_eq_ret.mp run
  obtain ⟨conn, w₂, hconn, run₂⟩ := bind_eq_ret.mp run₁
  obtain ⟨_, w₃, hdestroy, run₃⟩ := bind_eq_ret.mp run₂
  obtain ⟨rfl, rfl⟩ := pure_eq_ret.mp run₃
  obtain ⟨new₁, h₁⟩ := copy_rewired hw user weak hp hparam
  have free₁ := hw.sound.weaks.eq_none new₁
  have weak₁ : w₁.weaks param = pointing p := by rw [h₁.weaks, Function.update_self]
  have sane₁ := h₁.sane hw
  obtain ⟨new₂, h₂⟩ := copy_rewired sane₁ (h₁.user user) weak₁ hp hconn
  have free₂ := sane₁.sound.weaks.eq_none new₂
  have hne : conn ≠ param := by
    rintro rfl
    rw [weak₁] at free₂
    cases free₂
  have h₃ := destroy_rewired (p := p) (h₂.sane sane₁) (h₂.user (h₁.user user))
    (by rw [h₂.weaks, Function.update_of_ne hne.symm, weak₁]) hdestroy
  refine ⟨Nat.le_trans (h₁.steps.proceeds hw.sound).extension.next new₂, ?_⟩
  have hall := (h₁.trans h₂).trans h₃
  refine { hall with weaks := hall.weaks.trans ?_ }
  rw [h₂.weaks, h₁.weaks]
  funext x
  simp only [Function.update_apply]
  grind

theorem swap_rewired {a b : Addr} (hw : w.Sane) (user : w.UserPoint)
    (weak : w.weaks a = pointing p) (weak' : w.weaks b = pointing q)
    (hp : ∀ r, p ≠ some (.rep r)) (hq : ∀ r, q ≠ some (.rep r))
    (run : swap a b w = (.ret (), w')) :
    Rewired w w' (Function.update (Function.update w.weaks a (pointing q)) b (pointing p)) := by
  -- std::swap: a temporary copy, two assignments, and the end of the temporary.
  obtain ⟨tmp, w₁, htmp, run₁⟩ := bind_eq_ret.mp run
  obtain ⟨_, w₂, hfirst, run₂⟩ := bind_eq_ret.mp run₁
  obtain ⟨_, w₃, hsecond, hdestroy⟩ := bind_eq_ret.mp run₂
  obtain ⟨new, h₁⟩ := copy_rewired hw user weak hp htmp
  have free := hw.sound.weaks.eq_none new
  have hat : a ≠ tmp := by
    rintro rfl
    rw [free] at weak
    cases weak
  have hbt : b ≠ tmp := by
    rintro rfl
    rw [free] at weak'
    cases weak'
  have sane₁ := h₁.sane hw
  have h₂ := assign_rewired (p := p) (q := q) sane₁ (h₁.user user)
    (by rw [h₁.weaks, Function.update_of_ne hat, weak])
    (by rw [h₁.weaks, Function.update_of_ne hbt, weak']) hq hfirst
  -- The first assignment leaves b alone, also where b is a.
  have hb₂ : w₂.weaks b = pointing q := by
    rw [h₂.weaks, h₁.weaks]
    by_cases hba : b = a
    · rw [hba, Function.update_self]
    · rw [Function.update_of_ne hba, Function.update_of_ne hbt, weak']
  have h₃ := assign_rewired (p := q) (q := p) (h₂.sane sane₁) (h₂.user (h₁.user user)) hb₂
    (by rw [h₂.weaks, Function.update_of_ne hat.symm, h₁.weaks, Function.update_self]) hp hsecond
  have h₄ := destroy_rewired (p := p) (h₃.sane (h₂.sane sane₁)) (h₃.user (h₂.user (h₁.user user)))
    (by rw [h₃.weaks, Function.update_of_ne hbt.symm, h₂.weaks, Function.update_of_ne hat.symm,
      h₁.weaks, Function.update_self]) hdestroy
  have hall := ((h₁.trans h₂).trans h₃).trans h₄
  refine { hall with weaks := hall.weaks.trans ?_ }
  rw [h₃.weaks, h₂.weaks, h₁.weaks]
  funext x
  simp only [Function.update_apply]
  grind

end ScopedConnection

end Sigc
