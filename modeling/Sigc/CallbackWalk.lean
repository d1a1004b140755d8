import Sigc.Trackable
import Mathlib.Data.List.Induction

/-!
# Callbacks that remove callbacks

A `trackable_callback_list` by itself: calls of `add_callback` and `remove_callback` in any order,
and then the loop of the destructor, or of `clear()`, whose callbacks may remove any of the others.
-/

namespace Sigc

open TrackableCallbackList

/-! ## The list and its history -/

inductive ListCall where
  | add (data : Addr) (func : DestroyNotify)
  | remove (data : Addr)

inductive CallbackEvent where
  | request (call : ListCall)
  /-- `callback.func_(callback.data_)`, for the callback at this position of the list. -/
  | run (position : Nat) (callback : TrackableCallback)

structure CallbackWalk where
  list : TrackableCallbackList := {}
  history : List CallbackEvent := []

namespace CallbackWalk

def request (s : CallbackWalk) : ListCall → CallbackWalk
  | .add data func => ⟨s.list.addCallback data func, s.history ++ [.request (.add data func)]⟩
  | .remove data => ⟨s.list.removeCallback data, s.history ++ [.request (.remove data)]⟩

def requests (s : CallbackWalk) (calls : List ListCall) : CallbackWalk :=
  calls.foldl request s

/-- The list after these calls. -/
def registered (calls : List ListCall) : CallbackWalk := requests {} calls

section Loop

-- the data for which a callback removes callbacks, after all that has happened before
variable (behaviour : List CallbackEvent → List Addr)

/-- `if (callback.func_) callback.func_(callback.data_)`. -/
def runAt (pos : Nat) (callback : TrackableCallback) (s : CallbackWalk) : CallbackWalk :=
  if callback.func = none then s
  else
    let s := { s with history := s.history ++ [CallbackEvent.run pos callback] }
    s.requests ((behaviour s.history).map .remove)

/-- The loop over the elements, from a position on. -/
def loop : Nat → Nat → CallbackWalk → Option CallbackWalk
  | 0, _, _ => none
  | n + 1, pos, s =>
    match s.list.callbacks[pos]? with
    -- `end()`; callbacks that are added meanwhile are ignored
    | none => some s
    | some callback => loop n (pos + 1) (runAt behaviour pos callback s)

/-- `~trackable_callback_list()`, with this many rounds of the loop at most. -/
def destroy (fuel : Nat) (s : CallbackWalk) : Option CallbackWalk :=
  loop behaviour fuel 0 { s with list := { s.list with clearing := true } }

def clear (fuel : Nat) (s : CallbackWalk) : Option CallbackWalk :=
  (loop behaviour fuel 0 { s with list := { s.list with clearing := true } }).map fun s =>
    { s with list := { callbacks := [], clearing := false } }

end Loop

/-! ## Specification -/

/-- The number of calls of `add_callback` for `data`, less that of the calls of `remove_callback`
at a time when this number is not zero. -/
def outstanding (data : Addr) (history : List CallbackEvent) : Nat :=
  history.foldl (fun n e => match e with
    | .request (.add d _) => if d = data then n + 1 else n
    | .request (.remove d) => if d = data then n - 1 else n
    | .run _ _ => n) 0

/-- The callbacks that have been registered, in the order of their registration. -/
def registrations (calls : List ListCall) : List TrackableCallback :=
  calls.filterMap fun c => match c with
    | .add data func => some ⟨data, some func⟩
    | .remove _ => none

/-- The callbacks that have run, with their positions. -/
def runs (history : List CallbackEvent) : List (Nat × TrackableCallback) :=
  history.filterMap fun e => match e with
    | .request _ => none
    | .run pos callback => some (pos, callback)

def Removed (data : Addr) (history : List CallbackEvent) : Prop :=
  CallbackEvent.request (.remove data) ∈ history

end CallbackWalk

/-! ## Active callbacks -/

namespace TrackableCallbackList

variable {clearing : Bool} {d data : Addr} {l : List TrackableCallback}

/-- The number of callbacks for `data` that are still to be called. -/
def countActive (data : Addr) (l : List TrackableCallback) : Nat :=
  l.countP fun cb => cb.data = data ∧ cb.func ≠ none

theorem countActive_removeFirst :
    countActive data (removeFirst clearing d l) =
      if d = data then countActive data l - 1 else countActive data l := by
  unfold countActive
  induction l with
  | nil => simp [removeFirst]
  | cons x xs ih =>
    unfold removeFirst
    by_cases hx : x.data = d ∧ x.func ≠ none
    · rw [if_pos hx]
      cases clearing <;> by_cases hd : d = data <;> simp [hx.1, hx.2, hd]
    · rw [if_neg hx, List.countP_cons, ih, List.countP_cons]
      by_cases hd : d = data
      · have hinactive : ¬(x.data = data ∧ x.func ≠ none) := hd ▸ hx
        simp [hd, hinactive]
      · simp [hd]

/-- While the list is being cleared, an element stays where it is, and at most becomes inactive. -/
theorem removeFirst_getElem? (p : Nat) :
    (removeFirst true d l)[p]? = l[p]? ∨
      ∃ x, l[p]? = some x ∧ x.data = d ∧
        (removeFirst true d l)[p]? = some { x with func := none } := by
  -- up to the element that is removed, which only loses its function
  induction l generalizing p with
  | nil => exact .inl rfl
  | cons x xs ih =>
    unfold removeFirst
    by_cases hx : x.data = d ∧ x.func ≠ none
    · rw [if_pos hx, if_pos rfl]
      cases p with
      | zero => exact .inr ⟨x, rfl, hx.1, rfl⟩
      | succ p => exact .inl rfl
    · rw [if_neg hx]
      cases p with
      | zero => exact .inl rfl
      | succ p => exact ih p

theorem removeFirst_sublist : (removeFirst false d l).Sublist l := by
  induction l with
  | nil => exact List.Sublist.refl _
  | cons x xs ih =>
    unfold removeFirst
    split
    · exact List.sublist_cons_self x xs
    · exact ih.cons_cons x

theorem filter_removeFirst (h : d ≠ data) :
    (removeFirst false d l).filter (·.data = data) = l.filter (·.data = data) := by
  induction l with
  | nil => rfl
  | cons x xs ih =>
    unfold removeFirst
    split
    · rename_i hx
      have hne : x.data ≠ data := fun hdata => h (hx.1 ▸ hdata)
      simp [hne]
    · rw [List.filter_cons, ih, List.filter_cons]

end TrackableCallbackList

namespace CallbackWalk

/-! ## Histories -/

variable {history : List CallbackEvent} {e : CallbackEvent} {data : Addr}

theorem runs_append (h h' : List CallbackEvent) : runs (h ++ h') = runs h ++ runs h' :=
  List.filterMap_append

theorem outstanding_add (d : Addr) (func : DestroyNotify) :
    outstanding data (history ++ [.request (.add d func)]) =
      if d = data then outstanding data history + 1 else outstanding data history := by
  rw [outstanding, List.foldl_append]
  rfl

theorem outstanding_remove (d : Addr) :
    outstanding data (history ++ [.request (.remove d)]) =
      if d = data then outstanding data history - 1 else outstanding data history := by
  rw [outstanding, List.foldl_append]
  rfl

theorem outstanding_run (pos : Nat) (callback : TrackableCallback) :
    outstanding data (history ++ [.run pos callback]) = outstanding data history := by
  rw [outstanding, List.foldl_append]
  rfl

theorem Removed.append (h : Removed data history) : Removed data (history ++ [e]) :=
  List.mem_append_left _ h

/-! ## Before the loop -/

structure Registers (calls : List ListCall) (s : CallbackWalk) : Prop where
  clearing : s.list.clearing = false
  active : ∀ cb ∈ s.list.callbacks, cb.func ≠ none
  sublist : s.list.callbacks.Sublist (registrations calls)
  complete : ∀ d, ¬Removed d s.history →
    s.list.callbacks.filter (·.data = d) = (registrations calls).filter (·.data = d)
  count : ∀ d, countActive d s.list.callbacks = outstanding d s.history
  runs : runs s.history = []

namespace Registers

variable {calls : List ListCall} {s : CallbackWalk}

theorem add (h : Registers calls s) (d : Addr) (func : DestroyNotify) :
    Registers (calls ++ [.add d func]) (s.request (.add d func)) := by
  have hlist : (s.request (.add d func)).list.callbacks = s.list.callbacks ++ [⟨d, some func⟩] := by
    show (s.list.addCallback d func).callbacks = _
    rw [addCallback, h.clearing]
    rfl
  have hregistrations : registrations (calls ++ [.add d func]) =
      registrations calls ++ [⟨d, some func⟩] := List.filterMap_append
  constructor
  · show (s.list.addCallback d func).clearing = false
    rw [addCallback, h.clearing]
    rfl
  · intro cb hcb
    rw [hlist] at hcb
    cases List.mem_append.mp hcb with
    | inl hold => exact h.active cb hold
    | inr hnew =>
      rw [List.mem_singleton.mp hnew]
      simp
  · rw [hlist, hregistrations]
    exact h.sublist.append (List.Sublist.refl _)
  · intro x hx
    have hold : ¬Removed x s.history := fun hremoved => hx hremoved.append
    rw [hlist, hregistrations, List.filter_append, List.filter_append, h.complete x hold]
  · intro x
    show _ = outstanding x (s.history ++ [_])
    rw [hlist, outstanding_add, ← h.count]
    unfold countActive
    rw [List.countP_append]
    by_cases hd : d = x <;> simp [hd]
  · show CallbackWalk.runs (s.history ++ [_]) = []
    rw [runs_append, h.runs]
    rfl

theorem remove (h : Registers calls s) (d : Addr) :
    Registers (calls ++ [.remove d]) (s.request (.remove d)) := by
  have hlist : (s.request (.remove d)).list.callbacks = removeFirst false d s.list.callbacks := by
    show (s.list.removeCallback d).callbacks = _
    rw [removeCallback, h.clearing]
  have hregistrations : registrations (calls ++ [.remove d]) = registrations calls := by
    show List.filterMap _ _ = _
    rw [List.filterMap_append]
    exact List.append_nil _
  constructor
  · exact h.clearing
  · intro cb hcb
    rw [hlist] at hcb
    exact h.active cb (removeFirst_sublist.subset hcb)
  · rw [hlist, hregistrations]
    exact removeFirst_sublist.trans h.sublist
  · intro x hx
    have hold : ¬Removed x s.history := fun hremoved => hx hremoved.append
    have hne : d ≠ x := by
      intro hd
      apply hx
      rw [hd]
      exact List.mem_append_right _ List.mem_cons_self
    rw [hlist, hregistrations, filter_removeFirst hne, h.complete x hold]
  · intro x
    show _ = outstanding x (s.history ++ [_])
    rw [hlist, countActive_removeFirst, outstanding_remove, h.count]
  · show CallbackWalk.runs (s.history ++ [_]) = []
    rw [runs_append, h.runs]
    rfl

end Registers

theorem registered_concat (calls : List ListCall) (c : ListCall) :
    registered (calls ++ [c]) = (registered calls).request c := by
  unfold registered requests
  rw [List.foldl_append]
  rfl

theorem registers (calls : List ListCall) : Registers calls (registered calls) := by
  induction calls using List.reverseRecOn with
  | nil => exact ⟨rfl, by simp [registered, requests], List.Sublist.refl _, fun _ _ => rfl,
      fun _ => rfl, rfl⟩
  | append_singleton calls c ih =>
    rw [registered_concat]
    cases c with
    | add d func => exact ih.add d func
    | remove d => exact ih.remove d

/-! ## The loop -/

/-- What holds when the loop that began with the list `start` has come to a position.  Entries of
the list are made inactive, but neither added nor erased. -/
structure Walking (start : List TrackableCallback) (earlier : List CallbackEvent) (pos : Nat)
    (s : CallbackWalk) : Prop where
  earlier : earlier <+: s.history
  clearing : s.list.clearing = true
  entries : ∀ p : Nat, s.list.callbacks[p]? = start[p]? ∨
    ∃ x : TrackableCallback, start[p]? = some x ∧ Removed x.data s.history ∧
      s.list.callbacks[p]? = some { x with func := none }
  count : ∀ d, countActive d s.list.callbacks = outstanding d s.history
  increasing : (runs s.history).Pairwise fun c c' => c.1 < c'.1
  bounded : ∀ c ∈ runs s.history, c.1 < pos
  placed : ∀ c ∈ runs s.history, start[c.1]? = some c.2
  sublist : ((runs s.history).map (·.2)).Sublist (start.take pos)
  complete : ∀ d, ¬Removed d s.history →
    ((runs s.history).map (·.2)).filter (·.data = d) = (start.take pos).filter (·.data = d)
  positive : ∀ (before : List CallbackEvent) (p : Nat) (cb : TrackableCallback),
    before ++ [.run p cb] <+: s.history → 0 < outstanding cb.data before

namespace Walking

variable {start : List TrackableCallback} {earlier : List CallbackEvent} {pos : Nat}
  {s : CallbackWalk} {cb : TrackableCallback}

theorem begin {calls : List ListCall} (h : Registers calls s) :
    Walking s.list.callbacks s.history 0 { s with list := { s.list with clearing := true } } where
  earlier := List.prefix_refl _
  clearing := rfl
  entries _ := .inl rfl
  count := h.count
  increasing := by
    show (runs s.history).Pairwise _
    rw [h.runs]
    exact List.Pairwise.nil
  bounded c hc := by
    change c ∈ runs s.history at hc
    rw [h.runs] at hc
    cases hc
  placed c hc := by
    change c ∈ runs s.history at hc
    rw [h.runs] at hc
    cases hc
  sublist := by
    show ((runs s.history).map _).Sublist _
    rw [h.runs]
    exact List.nil_sublist _
  complete d _ := by
    show ((runs s.history).map _).filter _ = _
    rw [h.runs]
    rfl
  positive before p cb hprefix := by
    -- nothing has run yet
    have hmem : (p, cb) ∈ runs s.history := by
      apply List.mem_filterMap.mpr
      exact ⟨.run p cb, hprefix.subset (List.mem_append_right _ List.mem_cons_self), rfl⟩
    rw [h.runs] at hmem
    cases hmem

theorem remove (h : Walking start earlier pos s) (d : Addr) :
    Walking start earlier pos (s.request (.remove d)) := by
  have hlist : (s.request (.remove d)).list.callbacks = removeFirst true d s.list.callbacks := by
    show (s.list.removeCallback d).callbacks = _
    rw [removeCallback, h.clearing]
  have hruns : runs (s.request (.remove d)).history = runs s.history := by
    show runs (s.history ++ [_]) = _
    rw [runs_append]
    exact List.append_nil _
  have hremoved : Removed d (s.request (.remove d)).history :=
    List.mem_append_right _ List.mem_cons_self
  constructor
  · exact h.earlier.trans (List.prefix_append _ _)
  · exact h.clearing
  · intro p
    rw [hlist]
    cases removeFirst_getElem? (d := d) (l := s.list.callbacks) p with
    | inl hsame =>
      rw [hsame]
      refine (h.entries p).imp_right ?_
      intro ⟨x, hx, hold, hp⟩
      exact ⟨x, hx, hold.append, hp⟩
    | inr hnulled =>
      obtain ⟨y, hy, hd, hp⟩ := hnulled
      rw [hp]
      cases h.entries p with
      | inl hsame => exact .inr ⟨y, hsame ▸ hy, hd ▸ hremoved, rfl⟩
      | inr hbefore =>
        -- inactive already
        obtain ⟨x, hx, hold, hxy⟩ := hbefore
        obtain rfl := Option.some.inj (hxy.symm.trans hy)
        exact .inr ⟨x, hx, hold.append, rfl⟩
  · intro x
    show _ = outstanding x (s.history ++ [_])
    rw [hlist, countActive_removeFirst, outstanding_remove, h.count]
  · rw [hruns]
    exact h.increasing
  · rw [hruns]
    exact h.bounded
  · rw [hruns]
    exact h.placed
  · rw [hruns]
    exact h.sublist
  · intro x hx
    rw [hruns]
    apply h.complete
    intro hold
    exact hx hold.append
  · intro before p cb hprefix
    cases List.prefix_concat_iff.mp hprefix with
    | inl heq => cases (List.append_inj' heq rfl).2
    | inr hold => exact h.positive before p cb hold

theorem removes (ds : List Addr) :
    ∀ {s : CallbackWalk}, Walking start earlier pos s →
      Walking start earlier pos (s.requests (ds.map .remove)) := by
  induction ds with
  | nil =>
    intro s h
    exact h
  | cons d ds ih =>
    intro s h
    exact ih (h.remove d)

/-- A callback that is active is the one that was there at the beginning. -/
theorem active (h : Walking start earlier pos s) (hcb : s.list.callbacks[pos]? = some cb)
    (hf : cb.func ≠ none) : start[pos]? = some cb := by
  cases h.entries pos with
  | inl hsame => rw [← hsame, hcb]
  | inr hnulled =>
    obtain ⟨x, _, _, hp⟩ := hnulled
    obtain rfl := Option.some.inj (hcb.symm.trans hp)
    exact absurd rfl hf

theorem run (h : Walking start earlier pos s) (hcb : s.list.callbacks[pos]? = some cb)
    (hf : cb.func ≠ none) :
    Walking start earlier (pos + 1) { s with history := s.history ++ [CallbackEvent.run pos cb] } := by
  have hstart := h.active hcb hf
  have hruns : runs (s.history ++ [CallbackEvent.run pos cb]) = runs s.history ++ [(pos, cb)] :=
    runs_append _ _
  have htake : start.take (pos + 1) = start.take pos ++ [cb] := by
    rw [List.take_add_one, hstart]
    rfl
  have hmap : (runs s.history ++ [(pos, cb)]).map (·.2) = (runs s.history).map (·.2) ++ [cb] := by
    rw [List.map_append]
    rfl
  constructor
  · exact h.earlier.trans (List.prefix_append _ _)
  · exact h.clearing
  · intro p
    refine (h.entries p).imp_right ?_
    intro ⟨x, hx, hold, hp⟩
    exact ⟨x, hx, hold.append, hp⟩
  · intro d
    show _ = outstanding d (s.history ++ [_])
    rw [outstanding_run]
    exact h.count d
  · show (runs (s.history ++ [_])).Pairwise _
    rw [hruns, List.pairwise_append]
    refine ⟨h.increasing, List.pairwise_singleton _ _, ?_⟩
    intro c hc c' hc'
    rw [List.mem_singleton.mp hc']
    exact h.bounded c hc
  · intro c hc
    change c ∈ runs (s.history ++ [_]) at hc
    rw [hruns] at hc
    cases List.mem_append.mp hc with
    | inl hold =>
      have hlt := h.bounded c hold
      omega
    | inr hnew =>
      rw [List.mem_singleton.mp hnew]
      exact Nat.lt_succ_self pos
  · intro c hc
    change c ∈ runs (s.history ++ [_]) at hc
    rw [hruns] at hc
    cases List.mem_append.mp hc with
    | inl hold => exact h.placed c hold
    | inr hnew =>
      rw [List.mem_singleton.mp hnew]
      exact hstart
  · show ((runs (s.history ++ [_])).map _).Sublist _
    rw [hruns, hmap, htake]
    exact h.sublist.append (List.Sublist.refl _)
  · intro d hd
    have hold : ¬Removed d s.history := fun hremoved => hd hremoved.append
    show ((runs (s.history ++ [_])).map _).filter _ = _
    rw [hruns, hmap, htake, List.filter_append, List.filter_append, h.complete d hold]
  · intro before p x hprefix
    cases List.prefix_concat_iff.mp hprefix with
    | inl heq =>
      -- the callback is active, and so it is among those that are outstanding
      obtain ⟨rfl, hlast⟩ := List.append_inj' heq rfl
      cases hlast
      rw [← h.count]
      apply List.countP_pos_iff.mpr
      exact ⟨cb, List.mem_of_getElem? hcb, by simpa using hf⟩
    | inr hold => exact h.positive before p x hold

theorem skip (h : Walking start earlier pos s) (active : ∀ x ∈ start, x.func ≠ none)
    (hcb : s.list.callbacks[pos]? = some cb) (hf : cb.func = none) :
    Walking start earlier (pos + 1) s := by
  have hnulled : ∃ x, start[pos]? = some x ∧ Removed x.data s.history := by
    cases h.entries pos with
    | inl hsame => exact absurd hf (active cb (List.mem_of_getElem? (hsame ▸ hcb)))
    | inr hnulled =>
      obtain ⟨x, hx, hremoved, _⟩ := hnulled
      exact ⟨x, hx, hremoved⟩
  obtain ⟨x, hx, hremoved⟩ := hnulled
  have htake : start.take (pos + 1) = start.take pos ++ [x] := by
    rw [List.take_add_one, hx]
    rfl
  refine { h with bounded := ?_, sublist := ?_, complete := ?_ }
  · intro c hc
    have hlt := h.bounded c hc
    omega
  · rw [htake]
    exact h.sublist.trans (List.sublist_append_left _ _)
  · intro d hd
    have hne : x.data ≠ d := fun heq => hd (heq ▸ hremoved)
    rw [htake, List.filter_append, h.complete d hd]
    simp [hne]

theorem runAt (h : Walking start earlier pos s) (active : ∀ x ∈ start, x.func ≠ none)
    (behaviour : List CallbackEvent → List Addr) (hcb : s.list.callbacks[pos]? = some cb) :
    Walking start earlier (pos + 1) (s.runAt behaviour pos cb) := by
  unfold CallbackWalk.runAt
  split
  · rename_i hf
    exact h.skip active hcb hf
  · rename_i hf
    exact (h.run hcb hf).removes _

/-- The loop reaches the end of the list.  By induction on the number of elements that it has not
come to. -/
theorem loop (behaviour : List CallbackEvent → List Addr) (active : ∀ x ∈ start, x.func ≠ none) :
    ∀ (left : Nat) {pos : Nat} {s : CallbackWalk}, Walking start earlier pos s →
      start.length - pos = left → pos ≤ start.length →
      ∃ s', (∀ n, left < n → CallbackWalk.loop behaviour n pos s = some s') ∧
        Walking start earlier start.length s' := by
  intro left
  induction left with
  | zero =>
    intro pos s h hleft hle
    obtain rfl : pos = start.length := by omega
    -- The list has the length that it had at the start: elements are nulled, not erased.
    have hend : s.list.callbacks[start.length]? = none := by
      have hstart : start[start.length]? = none := List.getElem?_eq_none (Nat.le_refl _)
      cases h.entries start.length with
      | inl hsame => rw [hsame, hstart]
      | inr hnulled =>
        obtain ⟨x, hx, _⟩ := hnulled
        rw [hstart] at hx
        cases hx
    refine ⟨s, ?_, h⟩
    intro n hn
    obtain ⟨n, rfl⟩ : ∃ k, n = k + 1 := ⟨n - 1, by omega⟩
    rw [CallbackWalk.loop, hend]
  | succ left ih =>
    intro pos s h hleft hle
    -- Every position below the length holds an element, perhaps one that has been nulled.
    have hcb : ∃ cb, s.list.callbacks[pos]? = some cb := by
      have hstart : start[pos]? = some start[pos] := List.getElem?_eq_getElem (by omega)
      cases h.entries pos with
      | inl hsame => exact ⟨_, hsame.trans hstart⟩
      | inr hnulled =>
        obtain ⟨x, _, _, hp⟩ := hnulled
        exact ⟨_, hp⟩
    obtain ⟨cb, hcb⟩ := hcb
    obtain ⟨s', hloop, hs'⟩ := ih (h.runAt active behaviour hcb) (by omega) (by omega)
    refine ⟨s', ?_, hs'⟩
    intro n hn
    obtain ⟨n, rfl⟩ : ∃ k, n = k + 1 := ⟨n - 1, by omega⟩
    rw [CallbackWalk.loop, hcb]
    exact hloop n (by omega)

end Walking

/-! ## Exactly once -/

/-- A list is destroyed, or cleared, after any calls. -/
theorem exactly_once (calls : List ListCall) (behaviour : List CallbackEvent → List Addr) :
    ∃ s : CallbackWalk,
      (∀ fuel, (registered calls).list.callbacks.length < fuel →
        destroy behaviour fuel (registered calls) = some s ∧
          clear behaviour fuel (registered calls) = some { s with list := {} }) ∧
      (registered calls).history <+: s.history ∧
      -- no element is called twice, and the callbacks are called in the order of the list
      ((runs s.history).Pairwise fun c c' => c.1 < c'.1) ∧
      (∀ c ∈ runs s.history, (registered calls).list.callbacks[c.1]? = some c.2) ∧
      ((runs s.history).map (·.2)).Sublist (registrations calls) ∧
      (∀ data, ¬Removed data s.history →
        ((runs s.history).map (·.2)).filter (·.data = data) =
          (registrations calls).filter (·.data = data)) ∧
      ∀ (before : List CallbackEvent) (pos : Nat) (callback : TrackableCallback),
        before ++ [.run pos callback] <+: s.history → 0 < outstanding callback.data before := by
  have hregisters := registers calls
  obtain ⟨s, hloop, hs⟩ := Walking.loop behaviour hregisters.active _ (Walking.begin hregisters) rfl
    (Nat.zero_le _)
  have htake := List.take_length (l := (registered calls).list.callbacks)
  refine ⟨s, ?_, hs.earlier, hs.increasing, hs.placed, ?_, ?_, hs.positive⟩
  · intro fuel hfuel
    have hdestroy := hloop fuel hfuel
    apply And.intro hdestroy
    rw [clear, hdestroy]
    rfl
  · have hsublist := hs.sublist
    rw [htake] at hsublist
    exact hsublist.trans hregisters.sublist
  · intro data hdata
    have hbefore : ¬Removed data (registered calls).history := by
      intro hremoved
      exact hdata (hs.earlier.subset hremoved)
    rw [hs.complete data hdata, htake, hregisters.complete data hbefore]

/-- The first callback removes the one that is running and the other one for the same data. -/
example : (destroy (fun h => if (runs h).length = 1 then [1, 1] else []) 4
      (registered [.add 1 .notifyObjectInvalidated, .add 1 .notifyObjectInvalidated,
        .add 2 .notifyObjectInvalidated])).map (fun s => runs s.history) =
    some [(0, ⟨1, some .notifyObjectInvalidated⟩), (2, ⟨2, some .notifyObjectInvalidated⟩)] := by
  decide

end CallbackWalk

end Sigc
