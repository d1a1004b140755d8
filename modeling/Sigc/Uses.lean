import Sigc.Nesting

/-!
# The functions that run on one list

Of the functions that hold the execution count of a list, the one that was called first may erase
elements; the others are emissions, and calls of `clear()` from within.  The steps of all lists, as
seen from one of them, as long as fewer than `2 ^ 15` functions run on it.
-/

namespace Sigc

open Reasoning Prog

variable {V : Type} {w w' : World V} {i : Addr} {self self' : SignalImpl} {below : List (Frame V)}

/-- Does this frame erase elements of its list? -/
def Frame.erases : Frame V → Bool
  | .sweep .. | .erase .. | .clear _ _ _ false _ => true
  | _ => false

namespace World

/-- The functions that run on the list `i`, the innermost first. -/
def users (w : World V) (i : Addr) : List (Frame V) := w.frames.filter (Frame.execOn i)

/-- `exec_count_` of the list `i`, if there is one, is the number of functions that run on it. -/
def Fits (w : World V) (i : Addr) : Prop := ∀ self, w.impls i = some self → w.execs i < 2 ^ 15

theorem length_users : (w.users i).length = w.execs i := List.countP_eq_length_filter.symm

theorem users_eq (w : World V) (i : Addr) : w.users i = w.holders.filter (Frame.execOn i) := by
  unfold users holders
  rw [List.filter_filter]
  apply List.filter_congr
  intro f _
  cases hf : f.holds with
  | true => simp
  | false => simp [Frame.execOn_eq_false hf i]

theorem users_of_holders (h : w'.holders = w.holders) : w'.users i = w.users i := by
  rw [users_eq, users_eq, h]

theorem users_of_holders_cons {f : Frame V} (h : w'.holders = f :: w.holders) :
    w'.users i = if f.execOn i then f :: w.users i else w.users i := by
  rw [users_eq, users_eq, h, List.filter_cons]

theorem users_top {f : Frame V} (top : w.frames = f :: below) :
    w.users i = if f.execOn i then f :: below.filter (Frame.execOn i)
      else below.filter (Frame.execOn i) := by
  rw [users, top, List.filter_cons]

end World

theorem Frame.mem_users {i : Addr} (top : w.frames = f :: below) (hf : f.execOn i = true) :
    f ∈ w.users i := by
  apply List.mem_filter.mpr
  rw [top]
  exact ⟨List.mem_cons_self, hf⟩

/-- How the innermost function on a list goes on, from `f` to `g`, and its elements from `l` to
`l'`. -/
inductive Frame.Moves (i : Addr) (w : World V) :
    Frame V → List SlotAddr → Frame V → List SlotAddr → Prop where
  -- an emission, the loops of clear(), and the loop of sweep()
  | emit {e e' l} (placeholder : e'.placeholder = e.placeholder) :
      Moves i w (.emission e) l (.emission e') l
  | clearNext {it it' during saved l} (next : following it l = some it')
      (severed : w.Disconnected it) :
      Moves i w (.clear i (some it) none during saved) l (.clear i it' none during saved) l
  | clearErase {saved s l} : Moves i w (.clear i none none false saved) (s :: l)
      (.clear i none (some s) false saved) l
  | clearErased {saved s l} : Moves i w (.clear i none (some s) false saved) l
      (.clear i none none false saved) l
  | sweepSkip {it it' l} (next : following it l = some it') (keep : ¬w.Empty it) :
      Moves i w (.sweep i (some it) none) l (.sweep i it' none) l
  | sweepErase {it it' l} (next : following it l = some it') (empty : w.Empty it) :
      Moves i w (.sweep i (some it) none) l (.sweep i it' (some it)) (l.erase it)
  | sweepErased {it it' l} : Moves i w (.sweep i it' (some it)) l (.sweep i it' none) l

/-- What a step does to the list `i`, which is `self` and becomes `self'`. -/
inductive UseStep (w w' : World V) (i : Addr) (self self' : SignalImpl) : Prop where
  | quiet (same : self' = self) (users : w'.users i = w.users i)
  -- the list gets an element, or a removal is deferred, while the functions on it are the same
  | insert {n} (first : Bool)
      (slots : self'.slots = if first then n :: self.slots else self.slots ++ [n])
      (deferred : self'.deferred = self.deferred) (users : w'.users i = w.users i)
  | defer (slots : self'.slots = self.slots) (deferred : self'.deferred = true)
      (users : w'.users i = w.users i) (owned : w.owned i = true)
  -- a function begins on a list that is not in use
  | erase {n} (idle : w.users i = []) (slots : self'.slots = self.slots.erase n)
      (users : w'.users i = [.erase i n])
  | beginClear (idle : w.users i = []) (slots : self'.slots = self.slots)
      (users : w'.users i = [.clear i self.slots.head? none false false])
      (deferred : self'.deferred = self.deferred)
  -- a function begins on a list that may be in use, above the others
  | clearWithin {saved} (slots : self'.slots = self.slots)
      (deferred : self'.deferred = self.deferred)
      (users : w'.users i = .clear i self.slots.head? none true saved :: w.users i)
      (busy : w.users i ≠ [])
  | start {e : Emission V} (slots : self'.slots = self.slots ++ [e.placeholder])
      (deferred : self'.deferred = self.deferred) (users : w'.users i = .emission e :: w.users i)
  -- the innermost function goes on
  | restore {saved rest} (slots : self'.slots = self.slots)
      (top : w.users i = .clear i none none false saved :: rest) (users : w'.users i = w.users i)
      (deferred : self'.deferred = saved)
  | move {f g rest} (moves : f.Moves i w self.slots g self'.slots)
      (deferred : self'.deferred = self.deferred) (users : w.users i = f :: rest)
      (users' : w'.users i = g :: rest)
  -- the innermost function leaves the list, with or without a sweep() after it
  | leave {f rest} (slots : self'.slots = self.slots) (deferred : self'.deferred = self.deferred)
      (last : (∃ saved, f = .clear i none none true saved) ∨
        (∃ saved, f = .clear i none none false saved ∧ self.slots = []) ∨ f.Leaves i w)
      (users : w.users i = f :: rest) (users' : w'.users i = rest)
  | finish {e : Emission V} {rest} (impl : e.impl = i)
      (slots : self'.slots = self.slots.erase e.placeholder)
      (deferred : self'.deferred = self.deferred) (users : w.users i = .emission e :: rest)
      (users' : w'.users i = rest)
  | sweep {f} (slots : self'.slots = self.slots ∨ ∃ e : Emission V,
        f = .emission e ∧ e.impl = i ∧ self'.slots = self.slots.erase e.placeholder)
      (last : ∀ c er during saved, f ≠ .clear i (some c) er during saved)
      (users : w.users i = [f]) (users' : w'.users i = [.sweep i self'.slots.head? none])

/-! ## The count, when it has not wrapped around -/

theorem World.Counted.users_eq_nil (hc : w.Counted) (impl : w.impls i = some self)
    (bound : w.execs i < 2 ^ 15) (idle : self.execCount = 0) : w.users i = [] := by
  have hcount := hc.count i self impl
  rw [idle] at hcount
  -- A count below 2^15 that is null modulo 2^16 is null.
  have hzero := congrArg BitVec.toNat hcount
  rw [BitVec.toNat_ofNat] at hzero
  apply List.eq_nil_of_length_eq_zero
  rw [World.length_users]
  simp at hzero
  omega

/-- `clear()` is called outside emission exactly where no function runs on the list. -/
theorem World.Counted.outside (hc : w.Counted) (impl : w.impls i = some self)
    (bound : w.execs i < 2 ^ 15) (outside : decide (0 < self.execCount.toInt) = false) :
    w.users i = [] := by
  rw [hc.count i self impl, decide_eq_false_iff_not, toInt_ofNat_pos_iff] at outside
  apply List.eq_nil_of_length_eq_zero
  rw [World.length_users]
  omega

/-- The last of the functions that run on the list leaves it. -/
theorem World.Counted.alone (hc : w.Counted) (impl : w.impls i = some self)
    (bound : w.execs i < 2 ^ 15) (sweeps : self.sweepsNext = true) {f : Frame V}
    {rest : List (Frame V)} (users : w.users i = f :: rest) : rest = [] := by
  have hcount := hc.count i self impl
  have hlength := congrArg List.length users
  rw [World.length_users, List.length_cons] at hlength
  unfold SignalImpl.sweepsNext at sweeps
  rw [hcount, hlength, BitVec16.ofNat_pred] at sweeps
  simp only [Bool.and_eq_true, decide_eq_true_eq] at sweeps
  -- One hold is released and none is left, so it was the only one.
  have hzero := congrArg BitVec.toNat sweeps.1
  rw [BitVec.toNat_ofNat] at hzero
  apply List.eq_nil_of_length_eq_zero
  simp at hzero
  omega

/-! ## Steps -/

theorem World.Sets.eq {x : SignalImpl} (h : w.Sets w' i x) (impl' : w'.impls i = some self') :
    self' = x := by
  rw [h, Function.update_self] at impl'
  exact (Option.some.inj impl').symm

namespace World

variable {f g : Frame V} {j : Addr}

theorem frames_setTop (top : w.frames = f :: below) : (w.setTop g).frames = g :: below := by
  rw [setTop, top, List.tail_cons]

theorem users_on (top : w.frames = f :: below) (hf : f.execOn i = true) :
    w.users i = f :: below.filter (Frame.execOn i) := by
  rw [users_top top, if_pos hf]

theorem users_off (top : w.frames = f :: below) (hf : f.execOn i = false) :
    w.users i = below.filter (Frame.execOn i) := by
  rw [users_top top, if_neg (by simp [hf])]

theorem execOn_other (hne : i ≠ j) (hf : f.execOn j = true) : f.execOn i = false := by
  simp [Frame.execOn_iff hf, Ne.symm hne]

/-- A function on another list begins. -/
theorem users_begin_other (hne : i ≠ j) (hf : f.execOn j = true)
    (holders : w'.holders = f :: w.holders) : w'.users i = w.users i := by
  rw [users_of_holders_cons holders, if_neg (by simp [execOn_other hne hf])]

/-- On top, a function on another list goes on. -/
theorem users_top_other (hne : i ≠ j) (top : w.frames = f :: below) (hf : f.execOn j = true)
    (top' : w'.frames = g :: below) (hg : g.execOn j = true) : w'.users i = w.users i := by
  rw [users_off top (execOn_other hne hf), users_off top' (execOn_other hne hg)]

/-- The function on top has left another list. -/
theorem users_left_other (hne : i ≠ j) (top : w.frames = f :: below) (hf : f.execOn j = true)
    (left : w'.users i = below.filter (Frame.execOn i)) : w'.users i = w.users i := by
  rw [left, users_off top (execOn_other hne hf)]

/-- The function on top has left another list, which is swept. -/
theorem users_swept_other {it : Option SlotAddr} (hne : i ≠ j) (top : w.frames = f :: below)
    (hf : f.execOn j = true)
    (swept : w'.users i = (Frame.sweep j it none :: below).filter (Frame.execOn i)) :
    w'.users i = w.users i := by
  rw [swept, users_off top (execOn_other hne hf), List.filter_cons]
  simp [Frame.execOn, Ne.symm hne]

/-! ### The frames after the last release -/

theorem users_leaveClear (top : w.frames = f :: below) :
    (w.decrement j self).pop.users i = below.filter (Frame.execOn i) := by
  rw [users, pop, decrement, setImpl, top, List.tail_cons]

theorem users_leaveClearSweep (top : w.frames = f :: below) :
    ((w.pop.setImpl j (some self)).push g).users i = (g :: below).filter (Frame.execOn i) := by
  rw [users, push, setImpl, pop, top, List.tail_cons]

theorem users_leaveHolder (top : w.frames = f :: below) :
    ((w.decrement j self).setTop (.holding j)).users i = below.filter (Frame.execOn i) :=
  users_off (frames_setTop (w := w.decrement j self) top) rfl

theorem users_leaveHolderSweep (top : w.frames = f :: below) :
    (((w.setTop (.holding j)).setImpl j (some self)).push g).users i =
      (g :: below).filter (Frame.execOn i) := by
  have hoff : (Frame.holding j : Frame V).execOn i = false := rfl
  rw [users, push, setImpl, setTop, top, List.tail_cons]
  simp [List.filter_cons, hoff]

theorem users_finish {e : Emission V} {completed : Bool} {x : SignalImpl}
    (top : w.frames = f :: below) :
    (((w.erasePlaceholder e x completed).decrement j self).setTop (.holding j)).users i =
      below.filter (Frame.execOn i) :=
  users_leaveHolder (w := w.erasePlaceholder e x completed) top

theorem users_finishSweep {e : Emission V} {completed : Bool} {x : SignalImpl}
    (top : w.frames = f :: below) :
    ((((w.erasePlaceholder e x completed).setTop (.holding j)).setImpl j (some self)).push g).users
      i = (g :: below).filter (Frame.execOn i) :=
  users_leaveHolderSweep (w := w.erasePlaceholder e x completed) top

end World

namespace UseStep

variable {f g : Frame V} {j : Addr} {x y : SignalImpl}

/-- A step that changes another list. -/
theorem other {x? : Option SignalImpl} (hne : i ≠ j) (impl : w.impls i = some self)
    (impl' : w'.impls i = some self') (impls : w'.impls = Function.update w.impls j x?)
    (users : w'.users i = w.users i) : UseStep w w' i self self' := by
  rw [impls, Function.update_of_ne hne, impl] at impl'
  exact .quiet (Option.some.inj impl').symm users

theorem same (impl : w.impls i = some self) (impl' : w'.impls i = some self')
    (impls : w'.impls = w.impls) (users : w'.users i = w.users i) :
    UseStep w w' i self self' := by
  rw [impls, impl] at impl'
  exact .quiet (Option.some.inj impl').symm users

/-- A step that changes one list, as seen from that list and from the others. -/
theorem of_sets (bound : w.execs i < 2 ^ 15) (impl : w.impls i = some self)
    (impl' : w'.impls i = some self') (before : w.impls j = some x) (sets : w.Sets w' j y)
    (on : w.execs j < 2 ^ 15 → UseStep w w' j x y) (off : i ≠ j → w'.users i = w.users i) :
    UseStep w w' i self self' := by
  -- j is the list that has changed: for i this is a step of its own, or of another list.
  by_cases heq : i = j
  · subst heq
    obtain rfl := Option.some.inj (impl.symm.trans before)
    rw [sets.eq impl']
    exact on bound
  · exact .other heq impl impl' sets (off heq)

/-- The function on top goes on, and the elements stay. -/
theorem of_top (impl : w.impls i = some self) (impl' : w'.impls i = some self')
    (top : w.frames = f :: below) (hf : f.execOn j = true) (top' : w'.frames = g :: below)
    (hg : g.execOn j = true) (impls : w'.impls = w.impls)
    (moves : i = j → f.Moves i w self.slots g self.slots) : UseStep w w' i self self' := by
  by_cases heq : i = j
  · subst heq
    rw [impls, impl] at impl'
    obtain rfl := Option.some.inj impl'
    exact .move (moves rfl) rfl (World.users_on top hf) (World.users_on top' hg)
  · exact .same impl impl' impls (World.users_top_other heq top hf top' hg)

theorem of_alloc (hw : WellAddressed w) (fresh : w.next ≤ j) (impl : w.impls i = some self)
    (impl' : w'.impls i = some self') (sets : w.Sets w' j x) (holders : w'.holders = w.holders) :
    UseStep w w' i self self' := by
  refine .other ?_ impl impl' sets (World.users_of_holders holders)
  rintro rfl
  exact absurd (hw.impls i self impl) (Nat.not_lt.mpr fresh)

theorem of_dispose (impl : w.impls i = some self) (impl' : w'.impls i = some self')
    (impls : w'.impls = Function.update w.impls j none) (holders : w'.holders = w.holders) :
    UseStep w w' i self self' := by
  refine .other ?_ impl impl' impls (World.users_of_holders holders)
  rintro rfl
  rw [impls, Function.update_self] at impl'
  cases impl'

theorem of_erase {n : SlotAddr} (hc : w.Counted) (bound : w.execs i < 2 ^ 15)
    (impl : w.impls i = some self) (idle : self.execCount = 0)
    (holders : w'.holders = .erase i n :: w.holders) :
    UseStep w w' i self
      { self with slots := self.slots.erase n, execCount := self.execCount + 1 } := by
  have hnil := hc.users_eq_nil impl bound idle
  refine .erase hnil rfl ?_
  rw [World.users_of_holders_cons holders, if_pos (by simp [Frame.execOn]), hnil]

/-- `during_signal_emission` says whether a function already runs on the list. -/
theorem of_enterClear (hc : w.Counted) (bound : w.execs i < 2 ^ 15)
    (impl : w.impls i = some self)
    (holders : w'.holders = .clear i self.slots.head? none (decide (0 < self.execCount.toInt))
      self.deferred :: w.holders) :
    UseStep w w' i self { self with execCount := self.execCount + 1 } := by
  have husers := World.users_of_holders_cons (i := i) holders
  rw [if_pos (by simp [Frame.execOn])] at husers
  cases hd : decide (0 < self.execCount.toInt) with
  | false =>
    have hnil := hc.outside impl bound hd
    -- Where no function runs on the list, no removal is deferred.
    have hdeferred : self.deferred = false := by
      apply hc.idle i self impl
      rw [← World.length_users, hnil, List.length_nil]
    rw [hd, hnil, hdeferred] at husers
    exact .beginClear hnil rfl husers rfl
  | true =>
    rw [hd] at husers
    refine .clearWithin rfl rfl husers fun hnil => ?_
    rw [hc.count i self impl, ← World.length_users, hnil, List.length_nil] at hd
    exact absurd hd (by decide)

theorem of_leaveClear {saved during : Bool}
    (top : w.frames = .clear i none none during saved :: below)
    (cleared : during = false → self.slots = []) :
    UseStep w (w.decrement i self).pop i self
      { self with execCount := self.execCount - 1 } := by
  refine .leave rfl rfl ?_ (World.users_on top (by simp [Frame.execOn]))
    (World.users_leaveClear top)
  cases during with
  | true => exact .inl ⟨saved, rfl⟩
  | false => exact .inr (.inl ⟨saved, rfl, cleared rfl⟩)

/-- The last of the functions on the list is followed by `sweep()`. -/
theorem of_sweep (hc : w.Counted) (bound : w.execs i < 2 ^ 15) (impl : w.impls i = some self)
    (sweeps : self.sweepsNext = true) (top : w.frames = f :: below) (hf : f.execOn i = true)
    (last : ∀ c er during saved, f ≠ .clear i (some c) er during saved)
    (slots : self'.slots = self.slots ∨ ∃ e : Emission V,
      f = .emission e ∧ e.impl = i ∧ self'.slots = self.slots.erase e.placeholder)
    (swept : w'.users i =
      (Frame.sweep i self'.slots.head? none :: below).filter (Frame.execOn i)) :
    UseStep w w' i self self' := by
  have husers := World.users_on top hf
  -- It was the only one, since sweep() follows the last release only.
  have hnil := hc.alone impl bound sweeps husers
  rw [hnil] at husers
  refine .sweep slots last husers ?_
  rw [swept, List.filter_cons, hnil, if_pos (by simp [Frame.execOn])]

end UseStep

theorem Frame.Leaves.ne_clear {f : Frame V} (h : f.Leaves i w) (c : SlotAddr)
    (er : Option SlotAddr) (during saved : Bool) : f ≠ .clear i (some c) er during saved := by
  rcases h with rfl | ⟨n, rfl, -⟩ <;> simp

theorem ListStep.useStep (h : ListStep w w') (hw : WellAddressed w) (hc : w.Counted)
    (bound : w.execs i < 2 ^ 15) (impl : w.impls i = some self) (impl' : w'.impls i = some self') :
    UseStep w w' i self self' := by
  cases h with
  | quiet impls holders => exact .same impl impl' impls (World.users_of_holders holders)
  | insert first user before sets holders =>
    have husers (j : Addr) := World.users_of_holders (i := j) holders
    exact .of_sets bound impl impl' before sets (fun _ => .insert first rfl rfl (husers _))
      fun _ => husers i
  | alloc fresh sets holders => exact .of_alloc hw fresh impl impl' sets holders
  | dispose unowned idle before empty impls holders => exact .of_dispose impl impl' impls holders
  | defer owned before executing sets holders =>
    have husers (j : Addr) := World.users_of_holders (i := j) holders
    exact .of_sets bound impl impl' before sets (fun _ => .defer rfl rfl (husers _) owned)
      fun _ => husers i
  | erase calm owned before idle element sets holders =>
    exact .of_sets bound impl impl' before sets (fun hb => .of_erase hc hb before idle holders)
      fun hne => World.users_begin_other hne (by simp [Frame.execOn]) holders
  | enterClear calm before sets holders =>
    exact .of_sets bound impl impl' before sets (fun hb => .of_enterClear hc hb before holders)
      fun hne => World.users_begin_other hne (by simp [Frame.execOn]) holders
  | @clearNext j it it' during saved below x top before next severed same =>
    subst same
    refine .of_top (j := j) impl impl' top (by simp [Frame.execOn]) (World.frames_setTop top)
      (by simp [Frame.execOn]) rfl ?_
    rintro rfl
    obtain rfl := Option.some.inj (impl.symm.trans before)
    exact .clearNext next severed
  | @restoreDeferred j saved below x top before same =>
    subst same
    exact .of_sets (j := j) bound impl impl' before rfl
      (fun _ => .restore rfl (World.users_on top (by simp [Frame.execOn])) rfl rfl) fun _ => rfl
  | @clearErase j saved below x s rest sl top before slots alive same =>
    subst same
    have htop := World.frames_setTop (w := w.unlinkDying j x s sl)
      (g := .clear j none (some s) false saved) top
    refine .of_sets (j := j) bound impl impl' before rfl (fun _ => ?_) fun hne =>
      World.users_top_other hne top (by simp [Frame.execOn]) htop (by simp [Frame.execOn])
    refine .move ?_ rfl (World.users_on top (by simp [Frame.execOn]))
      (World.users_on htop (by simp [Frame.execOn]))
    rw [slots, List.erase_cons_head]
    exact .clearErase
  | @clearErased j saved below s top gone same =>
    subst same
    refine .of_top (j := j) impl impl' top (by simp [Frame.execOn]) (World.frames_setTop top)
      (by simp [Frame.execOn]) rfl ?_
    rintro rfl
    exact .clearErased
  | @leaveClear j during saved below x top before cleared quiet same =>
    subst same
    exact .of_sets (j := j) bound impl impl' before rfl (fun _ => .of_leaveClear top cleared)
      fun hne => World.users_left_other hne top (by simp [Frame.execOn])
        (World.users_leaveClear top)
  | @leaveClearSweep j during saved below x top before cleared sweeps same =>
    subst same
    exact .of_sets (j := j) bound impl impl' before rfl
      (fun hb => .of_sweep hc hb before sweeps top (by simp [Frame.execOn]) (by simp) (.inl rfl)
        (World.users_leaveClearSweep top))
      fun hne => World.users_swept_other hne top (by simp [Frame.execOn])
        (World.users_leaveClearSweep top)
  | @sweepSkip j it it' below x top before next keep same =>
    subst same
    refine .of_top (j := j) impl impl' top (by simp [Frame.execOn]) (World.frames_setTop top)
      (by simp [Frame.execOn]) rfl ?_
    rintro rfl
    obtain rfl := Option.some.inj (impl.symm.trans before)
    exact .sweepSkip next keep
  | @sweepErase j it it' below x sl top before next element empty alive same =>
    subst same
    have htop := World.frames_setTop (w := w.unlinkDying j x it sl) (g := .sweep j it' (some it)) top
    refine .of_sets (j := j) bound impl impl' before rfl (fun _ => ?_) fun hne =>
      World.users_top_other hne top (by simp [Frame.execOn]) htop (by simp [Frame.execOn])
    exact .move (.sweepErase next empty) rfl (World.users_on top (by simp [Frame.execOn]))
      (World.users_on htop (by simp [Frame.execOn]))
  | @sweepErased j it it' below top gone same =>
    subst same
    refine .of_top (j := j) impl impl' top (by simp [Frame.execOn]) (World.frames_setTop top)
      (by simp [Frame.execOn]) rfl ?_
    rintro rfl
    exact .sweepErased
  | @leaveHolder j below f x top holder before quiet same =>
    subst same
    exact .of_sets (j := j) bound impl impl' before rfl
      (fun _ => .leave rfl rfl (.inr (.inr holder)) (World.users_on top holder.execOn)
        (World.users_leaveHolder top))
      fun hne => World.users_left_other hne top holder.execOn (World.users_leaveHolder top)
  | @leaveHolderSweep j below f x top holder before sweeps same =>
    subst same
    exact .of_sets (j := j) bound impl impl' before rfl
      (fun hb => .of_sweep hc hb before sweeps top holder.execOn holder.ne_clear (.inl rfl)
        (World.users_leaveHolderSweep top))
      fun hne => World.users_swept_other hne top holder.execOn (World.users_leaveHolderSweep top)
  | @start j x e calm owned before new sets holders =>
    have hon : (Frame.emission e).execOn j = true := by simp [Frame.execOn, new]
    refine .of_sets bound impl impl' before sets (fun _ => .start rfl rfl ?_)
      fun hne => World.users_begin_other hne hon holders
    rw [World.users_of_holders_cons holders, if_pos hon]
  | @emit e e' below top list placeholder it same =>
    subst same
    refine .of_top (j := e.impl) impl impl' top (by simp [Frame.execOn]) (World.frames_setTop top)
      (by simp [Frame.execOn, list]) rfl ?_
    rintro rfl
    exact .emit placeholder
  | @finish e below x completed top ends before element quiet same =>
    subst same
    have hon : (Frame.emission e).execOn e.impl = true := by simp [Frame.execOn]
    exact .of_sets bound impl impl' before (World.sets_finish w e x completed)
      (fun _ => .finish rfl rfl rfl (World.users_on top hon) (World.users_finish top))
      fun hne => World.users_left_other hne top hon (World.users_finish top)
  | @finishSweep e below x completed top ends before element sweeps same =>
    subst same
    have hon : (Frame.emission e).execOn e.impl = true := by simp [Frame.execOn]
    exact .of_sets bound impl impl' before (World.sets_finishSweep w e x completed _)
      (fun hb => .of_sweep hc hb before sweeps top hon (by simp) (.inr ⟨e, rfl, rfl, rfl⟩)
        (World.users_finishSweep top))
      fun hne => World.users_swept_other hne top hon (World.users_finishSweep top)

end Sigc
