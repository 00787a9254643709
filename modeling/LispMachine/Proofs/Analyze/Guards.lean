import LispMachine.Proofs.Analyze.Units
/-!
# Analyses that reject a `recur`

A `recur` is analyzed at a place, and the place says which locals it rebinds, if it may stand there at all
(`Scope.rebound?`).  Two analyses that differ only in what they do about a `recur` that may not are compared by one
judgement (`Guards`): the first does what the second does, or else it fails, and the fault is that of a `recur`.
-/
namespace LispMachine

/-! ## Places and faults -/

/-- The locals that a `recur` rebinds here, if its result is wanted in this way and it may stand here. -/
def Scope.rebound? (s : Scope) (demand : Demand) : Option (List Nat) :=
  if demand = .tail ∧ s.noRecur = false ∧ s.inHandler = false then s.loopLocals else none

def Place.rebound? (p : Place) (demand : Demand) : Option (List Nat) :=
  if demand = .tail ∧ p.noRecur = false ∧ p.room.inHandler = false then p.loopLocals else none

theorem Place.rebound?_of_ne_tail (p : Place) {demand : Demand} (h : demand ≠ .tail) : p.rebound? demand = none :=
  if_neg fun hp => h hp.1

/-- In the body of a `try`. -/
def Place.attempted (p : Place) : Place := { p with noRecur := true, methodReturn := false }

/-- In a handler or a cleanup. -/
def Place.handling (p : Place) : Place := { p with room := p.room.handling, methodReturn := false }

theorem Place.rebound?_attempted (p : Place) (demand : Demand) : p.attempted.rebound? demand = none :=
  if_neg fun hp => Bool.noConfusion hp.2.1

theorem Place.rebound?_handling (p : Place) (demand : Demand) : p.handling.rebound? demand = none :=
  if_neg fun hp => Bool.noConfusion hp.2.2

/-- The fault of a `recur`: where it stands, or how many arguments it has. -/
def CompileFault.ofRecur : CompileFault → Bool
  | .recurInHandler | .recurNotInTail | .recurAcrossTry | .recurArity .. => true
  | _ => false

theorem CompileFault.kind_of_ofRecur {f : CompileFault} (h : f.ofRecur = true) : f.kind = .scope := by
  unfold ofRecur at h
  split at h
  any_goals rfl
  cases h

/-- The analysis fails, and the fault is that of a `recur`. -/
def Result.RejectsRecur {α : Type} (r : Result α) : Prop := ∃ e : CompileError, r = .error e ∧ e.fault.ofRecur = true

namespace Analysis

variable {α β : Type} {x x' : Analysis α} {f f' : α → Analysis β} {p q : Place} {P Q : α → Prop} {R : β → Context → Prop}

/-- From a place like `p` the first analysis does what the second one does, unless it rejects a `recur`; and if it succeeds
then its result is as said. -/
def Minds (p : Place) (x x' : Analysis α) (Q : α → Context → Prop) : Prop := ∀ c, c.At p →
  (x c = x' c ∨ (x c).1.RejectsRecur) ∧ ∀ a c', x c = (.ok a, c') → Q a c'

/-- It also comes back to the place. -/
abbrev Guards (p : Place) (x x' : Analysis α) (Q : α → Prop) : Prop := Minds p x x' fun a c' => c'.At p ∧ Q a

theorem Guards.mono (h : Guards p x x' P) (hq : ∀ a, P a → Q a) : Guards p x x' Q := fun c hp =>
  ⟨(h c hp).1, fun a c' hx => ((h c hp).2 a c' hx).imp_right (hq a)⟩

theorem Guards.minds (h : Guards p x x' Q) : Minds p x x' fun a _ => Q a := fun c hp =>
  ⟨(h c hp).1, fun a c' hx => ((h c hp).2 a c' hx).2⟩

/-- A step that has nothing to do with `recur`. -/
theorem guards_step {Q : α → Context → Prop} (h : ∀ c a c', c.At p → x c = (.ok a, c') → Q a c') : Minds p x x Q := fun c hp =>
  ⟨.inl rfl, fun a c' hx => h c a c' hp hx⟩

theorem Calm.guards (h : Calm x P) : Guards p x x P := guards_step fun c a c' hp hx => ⟨(h c a c' hx).1.at hp, (h c a c' hx).2⟩

theorem guards_pure {a : α} (h : Q a) : Guards p (Pure.pure a : Analysis α) (Pure.pure a) Q := (calm_pure h).guards

theorem minds_pure {a : α} (h : Q a) : Minds p (Pure.pure a : Analysis α) (Pure.pure a) fun a _ => Q a := (guards_pure h).minds

theorem guards_fail {Q : α → Context → Prop} (e : CompileFault) : Minds p (fail e : Analysis α) (fail e) Q :=
  guards_step fun _ _ _ _ hx => by cases hx

theorem guards_cut {Q : α → Context → Prop} : Minds p (cut : Analysis α) cut Q := guards_step fun _ _ _ _ hx => by cases hx

/-- One analysis after the other. -/
theorem guards_bind (hx : Guards p x x' Q) (hf : ∀ a, Q a → Minds p (f a) (f' a) R) : Minds p (x >>= f) (x' >>= f') R := by
  intro c hp
  obtain ⟨hsame, hok⟩ := hx c hp
  refine ⟨?_, fun b c' h => ?_⟩
  · rcases hsame with hsame | ⟨e, he, hr⟩
    · rcases hxc : x c with ⟨res, c₁⟩
      rw [hxc] at hsame
      cases res with
      | ok a =>
        obtain ⟨hq, ha⟩ := hok a c₁ hxc
        rw [bind_of_ok hxc, bind_of_ok hsame.symm]
        exact (hf a ha c₁ hq).1
      | error e => exact .inl (by rw [bind_of_error hxc, bind_of_error hsame.symm])
      | cut => exact .inl (by rw [bind_of_cut hxc, bind_of_cut hsame.symm])
    · refine .inr ⟨e, ?_, hr⟩
      rw [bind_of_error (Prod.ext he rfl : x c = (.error e, (x c).2))]
  · obtain ⟨a, c₁, h₁, h₂⟩ := bind_eq_ok h
    obtain ⟨hq, ha⟩ := hok a c₁ h₁
    exact (hf a ha c₁ hq).2 b c' h₂

/-- What comes first has nothing to do with `recur`. -/
theorem guards_calm (hx : Calm x P) (hf : ∀ a, P a → Minds p (f a) (f' a) R) : Minds p (x >>= f) (x >>= f') R := guards_bind hx.guards hf

/-- What only looks at the context. -/
theorem guards_read {g : Context → α} (h : ∀ c, c.At p → Minds p (f (g c)) (f' (g c)) R) : Minds p (read g >>= f) (read g >>= f') R :=
  fun c hp => h c hp c hp

theorem guards_ofExcept {e : Except CompileFault α} (h : ∀ a, e = .ok a → Minds p (f a) (f' a) R) :
    Minds p (ofExcept e >>= f) (ofExcept e >>= f') R := guards_calm calm_ofExcept h

/-- A step that may be left out. -/
theorem guards_if {b : Prop} [Decidable b] {y : Analysis PUnit} {z z' : Analysis β} (hy : Calm y fun _ => True) (hz : Minds p z z' R) :
    Minds p (if b then y >>= fun _ => z else z) (if b then y >>= fun _ => z' else z') R := by
  split
  · exact guards_calm hy fun _ _ => hz
  · exact hz

theorem guards_forList {f f' : α → Analysis β} {R : β → Prop} {as : List α} (hf : ∀ a ∈ as, Guards p (f a) (f' a) R) :
    Guards p (forList f as) (forList f' as) fun bs => bs.length = as.length ∧ ∀ b ∈ bs, R b := by
  induction as with
  | nil => exact guards_pure ⟨rfl, fun _ h => by cases h⟩
  | cons a as ih =>
    refine guards_bind (hf a List.mem_cons_self) fun b hb => ?_
    refine guards_bind (ih fun a ha => hf a (List.mem_cons_of_mem _ ha)) fun bs hbs => guards_pure ⟨?_, List.forall_mem_cons.2 ⟨hb, hbs.2⟩⟩
    rw [List.length_cons, List.length_cons, hbs.1]

theorem guards_forM {f : α → Analysis PUnit} (hf : ∀ a, Guards p (f a) (f a) fun _ => True) (as : List α) :
    Guards p (as.forM f) (as.forM f) fun _ => True := by
  induction as with
  | nil => exact guards_pure trivial
  | cons a as ih =>
    rw [List.forM_eq_forM, List.forM_cons]
    exact guards_bind (hf a) fun _ _ => ih

/-! ## Scopes -/

/-- The scope is put back. -/
theorem guards_nested (h : Minds p x x' fun a _ => Q a) : Guards p (nested x) (nested x') Q := by
  intro c hp
  obtain ⟨hsame, hok⟩ := h c hp
  refine ⟨hsame.imp (fun he => ?_) fun hr => hr, fun a c' hx => ?_⟩
  · simp only [nested, he]
  · simp only [nested, Prod.mk.injEq] at hx
    obtain ⟨hr, rfl⟩ := hx
    exact ⟨hp, hok a (x c).2 (Prod.ext hr rfl)⟩

/-- The place of an error does not change its fault. -/
theorem fault_locate (e : CompileError) (file : Option String) (line column : Nat) : (e.locate file line column).fault = e.fault := by
  unfold CompileError.locate
  split <;> rfl

theorem rejects_located {c : Context} (h : (x c).1.RejectsRecur) : (located x c).1.RejectsRecur := by
  obtain ⟨e, he, hr⟩ := h
  refine ⟨e.locate (x c).2.options.file c.scope.line c.scope.column, ?_, (congrArg CompileFault.ofRecur (fault_locate e _ _ _)).trans hr⟩
  rcases hxc : x c with ⟨res, c₁⟩
  rw [hxc] at he
  cases he
  simp only [located, hxc]

theorem located_eq_ok {c c' : Context} {a : α} (h : located x c = (.ok a, c')) : x c = (.ok a, c') := by
  unfold located at h
  dsimp only at h
  split at h
  · cases h
  · exact h

theorem guards_located (h : Guards p x x' Q) : Guards p (located x) (located x') Q := fun c hp =>
  ⟨(h c hp).1.imp (fun hsame => by simp only [located, hsame]) rejects_located, fun a c' hx => (h c hp).2 a c' (located_eq_ok hx)⟩

/-- The analysis goes on at another place. -/
theorem guards_modifyScope {g : Scope → Scope} {z z' : PUnit → Analysis β} (h : ∀ c : Context, c.At p → (c.modifyScope g).At q)
    (hz : Minds q (z ⟨⟩) (z' ⟨⟩) R) : Minds p (modifyScope g >>= z) (modifyScope g >>= z') R :=
  fun c hp => hz (c.modifyScope g) (h c hp)

/-- The place changes as the scope does. -/
theorem guards_shift {g : Scope → Scope} {z z' : PUnit → Analysis β} (t : Place → Place) (hn : ∀ s, (g s).nextSlot = s.nextSlot)
    (hg : ∀ s floor, (g s).place floor = t (s.place floor)) (hz : Minds (t p) (z ⟨⟩) (z' ⟨⟩) R) :
    Minds p (modifyScope g >>= z) (modifyScope g >>= z') R := by
  refine guards_modifyScope ?_ hz
  rintro c ⟨floor, hle, rfl⟩
  exact ⟨floor, Nat.le_trans hle (Nat.le_of_eq (hn c.scope).symm), hg c.scope floor⟩

/-- An arm of a choice is at the place of the choice. -/
theorem guards_arm {branch : Nat} (h : Guards p x x' Q) : Guards p (arm branch x) (arm branch x') Q :=
  guards_nested (guards_calm (calm_addPath _ _) fun _ _ => guards_modifyScope (fun _ hp => hp) h.minds)

end Analysis

/-! ## Locals -/

namespace Context

theorem scope_captureFrom (x : Nat) : ∀ (fuel m : Nat) (c : Context), (captureFrom x fuel m c).scope = c.scope
  | 0, _, _ => rfl
  | fuel + 1, m, c => by
    rw [captureFrom]
    split
    · split <;> rfl
    · dsimp only
      split
      · exact scope_captureFrom x fuel _ _
      · rfl

theorem scope_closeOver (c : Context) (x : Nat) : (c.closeOver x).scope = c.scope := by
  unfold closeOver
  split
  · exact scope_captureFrom x _ _ c
  · rfl

theorem scope_referenceLocal (c : Context) (x : Nat) (tag : Option String) : (c.referenceLocal x tag).2.scope = c.scope := by
  unfold referenceLocal
  dsimp only
  split
  · split <;> exact scope_closeOver c x
  · exact scope_closeOver c x

theorem world_captureFrom (x : Nat) : ∀ (fuel m : Nat) (c : Context), (captureFrom x fuel m c).world = c.world
  | 0, _, _ => rfl
  | fuel + 1, m, c => by
    rw [captureFrom]
    split
    · split <;> rfl
    · dsimp only
      split
      · exact world_captureFrom x fuel _ _
      · rfl

theorem world_closeOver (c : Context) (x : Nat) : (c.closeOver x).world = c.world := by
  unfold closeOver
  split
  · exact world_captureFrom x _ _ c
  · rfl

theorem world_referenceLocal (c : Context) (x : Nat) (tag : Option String) : (c.referenceLocal x tag).2.world = c.world := by
  unfold referenceLocal
  dsimp only
  split
  · split <;> exact world_closeOver c x
  · exact world_closeOver c x

theorem binding_referenceLocal (c : Context) (x : Nat) (tag : Option String) : (c.referenceLocal x tag).1.binding = x := by
  unfold referenceLocal
  dsimp only
  split
  · split <;> rfl
  · rfl

/-- The place depends on the scope only. -/
theorem At.of_scope {c c' : Context} {p : Place} (h : c.At p) (hs : c'.scope = c.scope) : c'.At p := by
  unfold At
  rw [hs]
  exact h

end Context

namespace Analysis

variable {p : Place}

theorem guards_change {α : Type} {g : Context → α × Context} (h : ∀ c : Context, (g c).2.scope = c.scope) :
    Guards p (change g) (change g) fun _ => True := guards_step fun c a c' hp hx => by
  cases hx
  exact ⟨hp.of_scope (h c), trivial⟩

theorem guards_modify {g : Context → Context} (h : ∀ c : Context, (g c).scope = c.scope) :
    Guards p (modify g) (modify g) fun _ => True := guards_step fun c a c' hp hx => by
  cases hx
  exact ⟨hp.of_scope (h c), trivial⟩

theorem guards_referenceLocal (x : Nat) (tag : Option String) :
    Guards p (referenceLocal x tag) (referenceLocal x tag) fun _ => True := guards_change fun c => c.scope_referenceLocal x tag

theorem guards_registerLocal (name : Symbol) (tag : Option String) (prim : Option Prim) (isArg : Bool) :
    Guards p (registerLocal name tag prim isArg) (registerLocal name tag prim isArg) fun _ => True :=
  guards_step fun c a c' ⟨floor, hn, hp⟩ hx => by
    cases hx
    exact ⟨⟨floor, Nat.le_succ_of_le hn, hp⟩, trivial⟩

theorem guards_registerThis (name : Symbol) (tag : Option String) :
    Guards p (change (·.registerThis name tag)) (change (·.registerThis name tag)) fun _ => True := guards_step fun c a c' hp hx => by
  cases hx
  exact ⟨hp, trivial⟩

theorem guards_allocSlot : Guards p (change Context.allocSlot) (change Context.allocSlot) fun _ => True :=
  guards_step fun c a c' ⟨floor, hn, hp⟩ hx => by
    cases hx
    exact ⟨⟨floor, Nat.le_succ_of_le hn, hp⟩, trivial⟩

end Analysis

end LispMachine
