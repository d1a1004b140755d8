import Sigc.Uses
import Sigc.Entries

/-!
# Elements that wait for their removal

A disconnected slot stays in its list until a `sweep()` or a `clear()` erases it.  What is shown
here of one list: the iterator of the function that is erasing its elements, if there is one, is
not past any of them that has been disconnected, or else `deferred_` is set.
-/

namespace Sigc

open Reasoning Prog

variable {V : Type} {w w' : World V} {i : Addr} {self self' : SignalImpl}

/-! ## Positions in a list -/

/-- `x` is the element `c` of the list, or comes after it. -/
def Ahead (l : List SlotAddr) (c x : SlotAddr) : Prop :=
  ∃ before after, l = before ++ c :: after ∧ x ∈ c :: after

namespace Ahead

variable {l : List SlotAddr} {c p x : SlotAddr}

theorem cons (h : Ahead l c x) (y : SlotAddr) : Ahead (y :: l) c x := by
  obtain ⟨before, after, rfl, hx⟩ := h
  exact ⟨y :: before, after, rfl, hx⟩

theorem concat (h : Ahead l c x) (y : SlotAddr) : Ahead (l ++ [y]) c x := by
  obtain ⟨before, after, rfl, hx⟩ := h
  refine ⟨before, after ++ [y], by simp, ?_⟩
  rw [← List.cons_append]
  exact List.mem_append_left _ hx

/-- Another element is erased. -/
theorem erase (h : Ahead l c x) (hc : p ≠ c) (hx : p ≠ x) : Ahead (l.erase p) c x := by
  obtain ⟨before, after, rfl, hm⟩ := h
  by_cases hp : p ∈ before
  · rw [List.erase_append_left _ hp]
    exact ⟨before.erase p, after, rfl, hm⟩
  · rw [List.erase_append_right _ hp, List.erase_cons_tail (by simpa using hc.symm)]
    refine ⟨before, after.erase p, rfl, ?_⟩
    rcases List.mem_cons.mp hm with rfl | hm
    · exact List.mem_cons_self
    · exact List.mem_cons_of_mem _ ((List.mem_erase_of_ne hx.symm).mpr hm)

theorem head (h : x ∈ l) : ∃ c, l.head? = some c ∧ Ahead l c x := by
  cases l with
  | nil => cases h
  | cons y ys => exact ⟨y, rfl, [], ys, rfl, h⟩

end Ahead

theorem following_split {c : SlotAddr} {before after : List SlotAddr} (h : c ∉ before) :
    following c (before ++ c :: after) = some after.head? := by
  -- the element is looked for behind all that differ from it
  induction before with
  | nil => simp [following]
  | cons y ys ih =>
    rw [List.mem_cons, not_or] at h
    rw [List.cons_append, following, if_neg (Ne.symm h.1)]
    exact ih h.2

namespace Ahead

variable {l : List SlotAddr} {c x : SlotAddr} {it : Option SlotAddr}

/-- `++it` -/
theorem next (h : Ahead l c x) (nodup : l.Nodup) (next : following c l = some it) (hx : x ≠ c) :
    ∃ c', it = some c' ∧ Ahead l c' x ∧ Ahead (l.erase c) c' x := by
  obtain ⟨before, after, rfl, hm⟩ := h
  have hbefore : c ∉ before := by
    intro hc
    exact (List.nodup_append.mp nodup).2.2 c hc c List.mem_cons_self rfl
  rw [following_split hbefore] at next
  have hafter : x ∈ after := (List.mem_cons.mp hm).resolve_left hx
  obtain ⟨c', hc', a, b, rfl, hb⟩ := head hafter
  refine ⟨c', by rw [← Option.some.inj next, hc'], ⟨before ++ c :: a, b, by simp, hb⟩, ?_⟩
  rw [List.erase_append_right _ hbefore, List.erase_cons_head]
  exact ⟨before ++ a, b, by simp, hb⟩

end Ahead

/-! ## Stacks of functions on a list -/

/-- Only the function that was called first erases elements. -/
def Stacked (users : List (Frame V)) : Prop :=
  ∀ f rest, (f :: rest) <:+ users → f.erases = true → rest = []

theorem Stacked.cons {users : List (Frame V)} (h : Stacked users) {f : Frame V}
    (hf : f.erases = true → users = []) : Stacked (f :: users) := by
  intro g rest hg he
  rcases List.suffix_cons_iff.mp hg with heq | hsuffix
  · obtain ⟨rfl, rfl⟩ := List.cons.inj heq
    exact hf he
  · exact h g rest hsuffix he

theorem Stacked.tail {f : Frame V} {rest : List (Frame V)} (h : Stacked (f :: rest)) :
    Stacked rest :=
  fun g rest' hg => h g rest' (hg.trans (List.suffix_cons f rest))

theorem Stacked.nil : Stacked ([] : List (Frame V)) := by
  intro f rest h
  simp at h

theorem Frame.Moves.erases {f g : Frame V} {l l' : List SlotAddr} (h : Frame.Moves i w f l g l')
    (he : g.erases = true) : f.erases = true := by
  cases h with
  | @clearNext it it' during saved l next severed =>
    cases during with
    | false => rfl
    | true => cases he
  | emit => cases he
  | _ => rfl

theorem UseStep.stacked (h : UseStep w w' i self self') (hs : Stacked (w.users i)) :
    Stacked (w'.users i) := by
  cases h with
  | quiet same users => rwa [users]
  | insert first slots deferred users => rwa [users]
  | defer slots deferred users => rwa [users]
  | restore slots top users => rwa [users]
  | erase idle slots users =>
    rw [users]
    exact Stacked.nil.cons fun _ => rfl
  | beginClear idle slots users =>
    rw [users]
    exact Stacked.nil.cons fun _ => rfl
  | sweep slots last users users' =>
    rw [users']
    exact Stacked.nil.cons fun _ => rfl
  | clearWithin slots deferred users =>
    rw [users]
    exact hs.cons fun h => by cases h
  | start slots deferred users =>
    rw [users]
    exact hs.cons fun h => by cases h
  | @move f g rest moves deferred users users' =>
    rw [users] at hs
    rw [users']
    exact hs.tail.cons fun he => hs f rest List.suffix_rfl (moves.erases he)
  | leave slots deferred last users users' =>
    rw [users] at hs
    rw [users']
    exact hs.tail
  | finish impl slots deferred users users' =>
    rw [users] at hs
    rw [users']
    exact hs.tail

/-! ## Iterators -/

/-- The iterator with which a function erases elements. -/
def Frame.cursor : Frame V → Option SlotAddr
  | .sweep _ it _ | .clear _ it _ false _ => it
  | _ => none

/-- A placeholder in a list is that of an emission on it. -/
theorem World.Linked.placeholder_user (hl : w.Linked) (impl : w.impls i = some self) {d : Nat}
    (h : .placeholder d ∈ self.slots) :
    ∃ e : Emission V, .emission e ∈ w.users i ∧ e.placeholder = .placeholder d := by
  obtain ⟨sl, hsl, howner, -⟩ := hl.element i self _ impl h
  have hlink := List.mem_of_getElem? (hl.placeholder d sl i hsl howner)
  rw [List.mem_reverse] at hlink
  obtain ⟨f, hf, hfl⟩ := List.mem_map.mp hlink
  cases f with
  | emission e =>
    simp only [Frame.link, Option.some.injEq, Link.emitting.injEq] at hfl
    exact ⟨e, List.mem_filter.mpr ⟨hf, by simp [Frame.execOn, hfl.1]⟩, hfl.2⟩
  | _ => cases hfl

/-- Where no emission runs, the elements are slots. -/
theorem World.Linked.element_object (hl : w.Linked) (impl : w.impls i = some self)
    (none : ∀ e : Emission V, .emission e ∉ w.users i) {c : SlotAddr} (hc : c ∈ self.slots) :
    ∃ a, c = .object a := by
  cases c with
  | object a => exact ⟨a, rfl⟩
  | placeholder d =>
    obtain ⟨e, he, -⟩ := hl.placeholder_user impl hc
    exact absurd he (none e)

/-- A function that erases elements is at no placeholder. -/
def World.Cursors (w : World V) (i : Addr) : Prop :=
  ∀ f ∈ w.users i, ∀ c, f.cursor = some c → ∃ a, c = .object a

/-- The iterator stays, or is moved to an element. -/
theorem Frame.Moves.cursor {f g : Frame V} {l l' : List SlotAddr} (h : Frame.Moves i w f l g l')
    {c : SlotAddr} (hc : g.cursor = some c) : f.cursor = some c ∨
      f.erases = true ∧ (∀ e : Emission V, .emission e ≠ f) ∧ c ∈ l := by
  cases h with
  | emit => cases hc
  | @clearNext it it' during saved l next severed =>
    cases during with
    | true => cases hc
    | false =>
      obtain rfl : it' = some c := hc
      exact .inr ⟨rfl, by simp, following_mem next⟩
  | clearErase => cases hc
  | clearErased => cases hc
  | @sweepSkip it it' l next keep =>
    obtain rfl : it' = some c := hc
    exact .inr ⟨rfl, by simp, following_mem next⟩
  | @sweepErase it it' l next empty =>
    obtain rfl : it' = some c := hc
    exact .inr ⟨rfl, by simp, following_mem next⟩
  | sweepErased => exact .inl hc

theorem UseStep.cursors (h : UseStep w w' i self self') (hl : w.Linked) (hl' : w'.Linked)
    (impl : w.impls i = some self) (impl' : w'.impls i = some self') (hs : Stacked (w.users i))
    (hc : w.Cursors i) : w'.Cursors i := by
  intro f hf c hcur
  cases h with
  | quiet same users => exact hc f (users ▸ hf) c hcur
  | insert first slots deferred users => exact hc f (users ▸ hf) c hcur
  | defer slots deferred users => exact hc f (users ▸ hf) c hcur
  | restore slots top users => exact hc f (users ▸ hf) c hcur
  | erase idle slots users =>
    rw [users, List.mem_singleton] at hf
    subst hf
    cases hcur
  | beginClear idle slots users =>
    rw [users, List.mem_singleton] at hf
    subst hf
    exact hl.element_object impl (by simp [idle]) (List.mem_of_head? hcur)
  | clearWithin slots deferred users =>
    rw [users] at hf
    rcases List.mem_cons.mp hf with rfl | hf
    · cases hcur
    · exact hc f hf c hcur
  | start slots deferred users =>
    rw [users] at hf
    rcases List.mem_cons.mp hf with rfl | hf
    · cases hcur
    · exact hc f hf c hcur
  | @move f' g rest moves deferred users users' =>
    rw [users'] at hf
    rcases List.mem_cons.mp hf with rfl | hf
    -- A function that erases is alone on the list, so its next position is no placeholder.
    · rcases moves.cursor hcur with hold | ⟨he, hne, hm⟩
      · exact hc f' (users ▸ List.mem_cons_self) c hold
      · have hrest := hs f' rest (users ▸ List.suffix_rfl) he
        apply hl.element_object impl _ hm
        intro e hemit
        rw [users, hrest, List.mem_singleton] at hemit
        exact hne e hemit
    · exact hc f (users ▸ List.mem_cons_of_mem f' hf) c hcur
  | @leave f' rest slots deferred last users users' =>
    rw [users'] at hf
    exact hc f (users ▸ List.mem_cons_of_mem f' hf) c hcur
  | finish impl slots deferred users users' =>
    rw [users'] at hf
    exact hc f (users ▸ List.mem_cons_of_mem _ hf) c hcur
  | sweep slots last users users' =>
    rw [users', List.mem_singleton] at hf
    subst hf
    -- sweep() begins when the last emission has gone, with its placeholder.
    exact hl'.element_object impl' (by simp [users']) (List.mem_of_head? hcur)

/-! ## Waiting for the removal -/

/-- The function in this frame is going to erase `n`, if it has been disconnected. -/
def Frame.Reaches (l : List SlotAddr) (n : SlotAddr) : Frame V → Prop
  | .sweep _ it _ => ∃ c, it = some c ∧ Ahead l c n
  | .clear _ _ _ false _ => True
  | _ => False

/-- Where `n` has been disconnected, it is known that it must be erased. -/
def World.Awaits (w : World V) (i : Addr) (self : SignalImpl) (n : SlotAddr) : Prop :=
  self.deferred = true ∨ ∃ f ∈ w.users i, f.Reaches self.slots n

theorem Frame.Reaches.mono {f : Frame V} {l l' : List SlotAddr} {n : SlotAddr}
    (h : f.Reaches l n) (hl : ∀ c, f.cursor = some c → Ahead l c n → Ahead l' c n) :
    f.Reaches l' n := by
  cases f with
  | sweep j it er =>
    obtain ⟨c, hc, hn⟩ := h
    exact ⟨c, hc, hl c hc hn⟩
  | clear j it er during saved =>
    cases during with
    | false => trivial
    | true => cases h
  | _ => cases h

/-- The function goes on, and `n` is neither skipped nor erased. -/
theorem Frame.Moves.reaches {f g : Frame V} {l l' : List SlotAddr} {n : SlotAddr}
    (h : Frame.Moves i w f l g l') (hf : f.Reaches l n) (nodup : l.Nodup) (hn : n ∈ l')
    (empty : w.Empty n) : g.Reaches l' n := by
  cases h with
  | emit => cases hf
  | @clearNext it it' during saved l next severed =>
    cases during with
    | false => trivial
    | true => cases hf
  | clearErase => trivial
  | clearErased => trivial
  | sweepSkip next keep =>
    obtain ⟨c, hc, hahead⟩ := hf
    obtain rfl := Option.some.inj hc
    obtain ⟨c', hc', hahead', -⟩ := hahead.next nodup next fun heq => keep (heq ▸ empty)
    exact ⟨c', hc', hahead'⟩
  | sweepErase next _ =>
    obtain ⟨c, hc, hahead⟩ := hf
    obtain rfl := Option.some.inj hc
    obtain ⟨c', hc', -, hahead'⟩ := hahead.next nodup next fun heq => nodup.not_mem_erase (heq ▸ hn)
    exact ⟨c', hc', hahead'⟩
  | sweepErased => exact hf

theorem Frame.Moves.slots_eq {f g : Frame V} {l l' : List SlotAddr} (h : Frame.Moves i w f l g l') :
    f.erases = true ∨ l' = l := by
  cases h with
  | emit => exact .inr rfl
  | clearNext next severed => exact .inr rfl
  | _ => exact .inl rfl

/-- The placeholder of the emission that ends is not ahead of an iterator. -/
theorem World.Linked.ahead_erase (hl : w.Linked) (impl : w.impls i = some self) (hc : w.Cursors i)
    {e : Emission V} (he : .emission e ∈ w.users i) {f : Frame V} (hf : f ∈ w.users i)
    {c : SlotAddr} (hcur : f.cursor = some c) (hn : n ∈ self.slots.erase e.placeholder)
    (h : Ahead self.slots c n) : Ahead (self.slots.erase e.placeholder) c n := by
  obtain ⟨a, rfl⟩ := hc f hf c hcur
  have hlink : some (.emitting e.impl e.placeholder) ∈ w.links :=
    List.mem_map.mpr ⟨_, (List.mem_filter.mp he).1, rfl⟩
  obtain ⟨d, hd⟩ := hl.emitting _ _ hlink
  refine h.erase ?_ ?_
  · rw [hd]
    simp
  · rintro rfl
    exact (hl.nodup i self impl).not_mem_erase hn

theorem UseStep.awaits (h : UseStep w w' i self self') (hl : w.Linked)
    (impl : w.impls i = some self) (hs : Stacked (w.users i)) (hc : w.Cursors i)
    (idle : w.users i = [] → self.deferred = false) {n : SlotAddr} (hn : n ∈ self'.slots)
    (empty : w.Empty n) (hw : w.Awaits i self n) : w'.Awaits i self' n := by
  have nodup := hl.nodup i self impl
  -- nothing has changed, or elements have been added
  have hold (deferred : self'.deferred = self.deferred)
      (users : ∀ f ∈ w.users i, f ∈ w'.users i)
      (slots : ∀ c, Ahead self.slots c n → Ahead self'.slots c n) : w'.Awaits i self' n := by
    rcases hw with hd | ⟨f, hf, hr⟩
    · exact .inl (deferred.trans hd)
    · exact .inr ⟨f, users f hf, hr.mono fun c _ => slots c⟩
  have hnone (hidle : w.users i = []) : False := by
    rcases hw with hd | ⟨f, hf, -⟩
    · rw [idle hidle] at hd
      cases hd
    · rw [hidle] at hf
      cases hf
  cases h with
  | quiet same users =>
    exact hold (by rw [same]) (fun f hf => users ▸ hf) fun c hc => same ▸ hc
  | insert first slots deferred users =>
    refine hold deferred (fun f hf => users ▸ hf) fun c hahead => ?_
    rw [slots]
    cases first with
    | true => exact hahead.cons _
    | false => exact hahead.concat _
  | defer slots deferred users => exact .inl deferred
  | @restore saved rest slots top users =>
    have hm : .clear i none none false saved ∈ w'.users i := by
      rw [users, top]
      exact List.mem_cons_self
    exact .inr ⟨_, hm, trivial⟩
  | erase hidle slots users => exact (hnone hidle).elim
  | beginClear hidle slots users => exact (hnone hidle).elim
  | clearWithin slots deferred users =>
    exact hold deferred (fun f hf => users ▸ List.mem_cons_of_mem _ hf) fun c hc => slots ▸ hc
  | start slots deferred users =>
    refine hold deferred (fun f hf => users ▸ List.mem_cons_of_mem _ hf) fun c hahead => ?_
    rw [slots]
    exact hahead.concat _
  | @move f g rest moves deferred users users' =>
    rcases hw with hd | ⟨f', hf', hr⟩
    · exact .inl (deferred.trans hd)
    · rw [users] at hf'
      rcases List.mem_cons.mp hf' with rfl | hf'
      · exact .inr ⟨g, users' ▸ List.mem_cons_self, moves.reaches hr nodup hn empty⟩
      · -- another function would not be the only one that erases elements
        have hslots : self'.slots = self.slots := by
          rcases moves.slots_eq with he | heq
          · rw [hs f rest (users ▸ List.suffix_rfl) he] at hf'
            cases hf'
          · exact heq
        exact .inr ⟨f', users' ▸ List.mem_cons_of_mem g hf', hslots.symm ▸ hr⟩
  | @leave f rest slots deferred last users users' =>
    rcases hw with hd | ⟨f', hf', hr⟩
    · exact .inl (deferred.trans hd)
    · rw [users] at hf'
      rcases List.mem_cons.mp hf' with rfl | hf'
      · rcases last with ⟨saved, rfl⟩ | ⟨saved, rfl, hnil⟩ | rfl | ⟨m, rfl, -⟩
        · cases hr
        · rw [slots, hnil] at hn
          cases hn
        · obtain ⟨c, hc, -⟩ := hr
          cases hc
        · cases hr
      · exact .inr ⟨f', users' ▸ hf', slots.symm ▸ hr⟩
  | @finish e rest himpl slots deferred users users' =>
    rcases hw with hd | ⟨f, hf, hr⟩
    · exact .inl (deferred.trans hd)
    · rw [users] at hf
      rcases List.mem_cons.mp hf with rfl | hf
      · cases hr
      · refine .inr ⟨f, users' ▸ hf, hr.mono fun c hcur hahead => ?_⟩
        rw [slots] at hn ⊢
        exact hl.ahead_erase impl hc (users ▸ List.mem_cons_self)
          (users ▸ List.mem_cons_of_mem _ hf) hcur hn hahead
  | @sweep f slots last users users' =>
    have hm : .sweep i self'.slots.head? none ∈ w'.users i := by
      rw [users']
      exact List.mem_cons_self
    exact .inr ⟨_, hm, Ahead.head hn⟩

end Sigc
