import LispMachine.Proofs.Machine.Effect
import LispMachine.Proofs.World.Linked
/-!
# Checked code runs without faults

A run of a method that the checker has accepted never reports one of the faults that the checker looks
for, and each instruction is always reached with the same number of slots on the operand stack
(`verified_run`).  The invariant of an activation is `Settled`: the frame stands at an instruction that
has a depth, and has just that many slots.
-/
namespace LispMachine

namespace World

/-- Worlds with the same code have the same units, up to their caches. -/
theorem unit_of_code_eq {w w' : World} (hc : w'.code = w.code) {k : Nat} {l : LoadedUnit} (hl : w.units[k]? = some l) :
    ∃ l', w'.units[k]? = some l' ∧ l'.linked = l.linked := by
  have h : (w'.units.map LoadedUnit.linked)[k]? = (w.units.map LoadedUnit.linked)[k]? := by
    rw [(Prod.mk.inj hc).1]
  rw [Array.getElem?_map, Array.getElem?_map, hl] at h
  exact Option.map_eq_some_iff.1 h

theorem linked_of_linked_eq {l l' : LoadedUnit} (h : l'.linked = l.linked) (hl : l.Linked) : l'.Linked := by
  simp only [LoadedUnit.linked, LinkedCode.mk.injEq] at h
  obtain ⟨hu, hc, hh, hk, hw, hp⟩ := h
  have hw := congrArg Array.size hw
  have hp := congrArg Array.size hp
  simp only [Array.size_map] at hw hp
  exact ⟨by rw [hc, hu]; exact hl.constants, by rw [hh, hu]; exact hl.hosts, by rw [hw, hu]; exact hl.keywordSites,
    by rw [hp, hu]; exact hl.protocolSites, by rw [hk, hu]; exact hl.children⟩

end World

namespace Machine

open Run LispMachine.Frame

variable {depth pc : Nat} {f g : Frame} {w w' : World} {v : CompiledUnit}

/-! ## Moves keep the code -/

theorem Goes.code_eq (h : Goes depth f w g w') : w'.code = w.code := by
  have hs : ∀ (i : Instr) {o : Outcome Action} {w₁ : World},
      step { f with pc := f.pc + 1 } i w = (o, w₁) → w₁.code = w.code := by
    intro i o w₁ he
    have := keeps_step { f with pc := f.pc + 1 } i w
    rw [he] at this
    exact this.code
  have ha : ∀ {n : Nat} {a : Answer} {o : Outcome Value} {w₁ w₂ : World}, answer n depth a w₁ = (o, w₂) →
      w₂.code = w₁.code := by
    intro n a o w₁ w₂ he
    have := (keepsWithin n).answer depth a w₁
    rw [he] at this
    exact this.code
  cases h with
  | next _ he => exact hs _ he
  | called _ he hv => exact (ha hv).trans (hs _ he)
  | caught _ he _ => exact hs _ he
  | caughtCall _ he ht _ => exact (ha ht).trans (hs _ he)

theorem Reaches.code_eq (h : Reaches depth f w g w') : w'.code = w.code := by
  induction h with
  | refl => rfl
  | step hs _ ih => exact ih.trans hs.code_eq

/-! ## The invariant -/

/-- The frame stands at an instruction of the method with the depth that is known for it. -/
structure Settled (m : Method) (depths : Nat → Option Nat) (unit : Nat) (f : Frame) : Prop where
  unit_eq : f.unit = unit
  method_eq : f.method = m
  room : m.maxLocals ≤ f.locals.size
  height : depths f.pc = some f.stack.length

variable {m : Method} {depths : Nat → Option Nat} {unit : Nat}

/-- A frame of the unit fits the limits of the unit. -/
theorem Settled.fits (hs : Settled m depths unit f) {l : LoadedUnit} (hl : w.units[unit]? = some l) (hk : l.Linked) :
    Fits { f with pc := f.pc + 1 } w l.unit.limits := by
  have he : Frame.loaded { f with pc := f.pc + 1 } w = l := by
    simp only [Frame.loaded, hs.unit_eq, hl, Option.getD_some]
  refine ⟨by rw [hs.method_eq]; exact hs.room, ?_, ?_, ?_, ?_⟩ <;> rw [he]
  · exact Nat.le_of_eq hk.constants.symm
  · exact Nat.le_of_eq hk.keywordSites.symm
  · exact Nat.le_of_eq hk.protocolSites.symm
  · rw [hk.children]
    simp [CompiledUnit.limits]

theorem handlerFor?_mem {t : Value} {target : Nat} (h : handlerFor? w m pc t = some target) :
    ∃ h ∈ m.handlers, m.labelPc? h.target = some target := by
  obtain ⟨e, he, h⟩ := List.exists_of_findSome?_eq_some h
  refine ⟨e, he, ?_⟩
  simp only [Option.bind_eq_bind, Option.bind_eq_some_iff] at h
  obtain ⟨s, _, stop, _, h⟩ := h
  rw [Option.ite_none_left_eq_some] at h
  exact (Option.ite_none_right_eq_some.1 h.2).2

theorem Settled.of_follows {i : Instr} (hs : Settled m depths unit f) (hb : m.Balanced depths)
    (hi : m.code[f.pc]? = some i) (hf : Follows { f with pc := f.pc + 1 } f.pc i g) : Settled m depths unit g := by
  obtain ⟨j, hj, _, hnext⟩ := hb.flow _ _ hs.height
  rw [hi, Option.some.injEq] at hj
  subst hj
  have hmem := hf.successor
  simp only [hs.method_eq] at hmem
  exact ⟨hf.unit.trans hs.unit_eq, hf.method.trans hs.method_eq, by rw [hf.room]; exact hs.room, hnext _ hmem⟩

theorem Settled.of_caught {t : Value} {target : Nat} (hs : Settled m depths unit f) (hb : m.Balanced depths)
    (hh : handlerFor? w f.method f.pc t = some target) :
    Settled m depths unit { f with stack := [.obj t], pc := target } := by
  rw [hs.method_eq] at hh
  obtain ⟨e, he, hpc⟩ := handlerFor?_mem hh
  exact ⟨hs.unit_eq, hs.method_eq, hs.room, hb.handler e he target hpc⟩

/-- The machine says here that the code is broken. -/
def Reports (f : Frame) (w : World) (fault : Fault) : Prop :=
  match f.method.code[f.pc]? with
  | none => fault = .fellOffEnd
  | some i => step { f with pc := f.pc + 1 } i w = Run.raise fault.failure w

/-- A settled frame of a checked unit does what its instruction declares, and reports no fault. -/
theorem Settled.step {l : LoadedUnit} (hs : Settled m depths unit f) (hb : m.Balanced depths)
    (hv : m.Verified l.unit.limits) (hl : w.units[unit]? = some l) (hk : l.Linked) :
    (∀ fault, ¬ Reports f w fault) ∧
      ∀ (i : Instr) (a : Action) (w' : World), m.code[f.pc]? = some i →
        step { f with pc := f.pc + 1 } i w = (.value a, w') → a.FollowedBy { f with pc := f.pc + 1 } f.pc i := by
  obtain rfl := hs.method_eq
  obtain ⟨i, hi, hp, _⟩ := hb.flow _ _ hs.height
  have hr : i.InRange l.unit.limits f.method := hv.inRange i (Array.mem_toList_iff.2 (Array.mem_of_getElem? hi))
  have hrep : ∀ fault, Reports f w fault → step { f with pc := f.pc + 1 } i w = Run.raise fault.failure w := by
    intro fault h
    simpa only [Reports, hi] using h
  have hsame : ∀ {j : Instr}, f.method.code[f.pc]? = some j → j = i := fun hj => Option.some.inj (hj.symm.trans hi)
  by_cases ht : i = .throw
  · subst ht
    obtain ⟨v, hst⟩ | ⟨v, hst⟩ := step_throw (f := { f with pc := f.pc + 1 }) (w := w) hp
    · refine ⟨fun fault h => ?_, fun j a w' hj hst' => ?_⟩
      · -- a new exception would have taken an identity
        have hw := hst.symm.trans (hrep fault h)
        have hid := congrArg World.nextId (Prod.mk.inj hw).2
        simp at hid
      · rw [hsame hj, hst] at hst'
        cases hst'
    · refine ⟨fun fault h => ?_, fun j a w' hj hst' => ?_⟩
      · have hw := hst.symm.trans (hrep fault h)
        exact (tame_raise (α := Action) (Failure.harmless_classCast v "Throwable") w).2 w.nextId fault (by rw [hw]; rfl)
      · rw [hsame hj, hst] at hst'
        cases hst'
  · have hy : Yields (Machine.step { f with pc := f.pc + 1 } i) w (Action.FollowedBy { f with pc := f.pc + 1 } f.pc i) :=
      yields_step ht (hs.fits hl hk) hr hp rfl
    refine ⟨fun fault h => hy.1.2 w.nextId fault (by rw [hrep fault h]; rfl), fun j a w' hj hst' => ?_⟩
    rw [hsame hj] at hst' ⊢
    exact hy.2 _ _ hst'

theorem Settled.goes {l : LoadedUnit} (hs : Settled m depths unit f) (hb : m.Balanced depths)
    (hv : m.Verified l.unit.limits) (hl : w.units[unit]? = some l) (hk : l.Linked) (hg : Goes depth f w g w') :
    Settled m depths unit g := by
  obtain rfl := hs.method_eq
  obtain ⟨-, hstep⟩ := hs.step hb hv hl hk
  cases hg with
  | next hi he => exact hs.of_follows hb hi (hstep _ _ _ hi he)
  | called hi he ha => exact hs.of_follows hb hi (hstep _ _ _ hi he _)
  | caught hi he hh => exact hs.of_caught hb hh
  | caughtCall hi he ha hh => exact hs.of_caught hb hh

theorem Settled.reaches {l : LoadedUnit} (hb : m.Balanced depths) (hv : m.Verified l.unit.limits)
    (hr : Reaches depth f w g w') (hs : Settled m depths unit f) (hl : w.units[unit]? = some l) (hk : l.Linked) :
    Settled m depths unit g := by
  induction hr generalizing l with
  | refl => exact hs
  | step hg _ ih =>
    obtain ⟨l', hl', he⟩ := World.unit_of_code_eq hg.code_eq hl
    refine ih ?_ (hs.goes hb hv hl hk hg) hl' (World.linked_of_linked_eq he hk)
    have hu : l'.unit = l.unit := (LinkedCode.mk.inj he).1
    rw [hu]
    exact hv

/-! ## Activations -/

theorem spared_paramSlots : ∀ (params : List (Option Prim)) (args : List Value), Spared (paramSlots params args)
  | _, [] => by
    unfold paramSlots
    exact spared_ok _
  | some p :: ps, v :: vs => by
    rw [paramSlots]
    exact spared_bind (Slot.spared_unbox v p) fun _ => spared_bind (spared_paramSlots ps vs) fun _ => spared_ok _
  | none :: ps, v :: vs => by
    rw [paramSlots]
    exact spared_bind (spared_paramSlots ps vs) fun _ => spared_ok _
  | [], v :: vs => by
    rw [paramSlots]
    exact spared_bind (spared_paramSlots [] vs) fun _ => spared_ok _

theorem yields_enter (unit : Nat) (m : Method) (this : Value) (args : List Value) (hb : m.Balanced depths) (w : World) :
    Yields (enter unit m this args) w (Settled m depths unit) := by
  refine yields_ofExcept_bind (gives_of_spared (spared_paramSlots m.params _)) fun params _ => ?_
  have start : ∀ (rest : List Slot) (w : World), Yields (Pure.pure
      { unit, method := m, this, stack := [], pc := 0,
        locals := (Slot.obj this :: params ++ rest ++
          List.replicate (m.maxLocals - (Slot.obj this :: params ++ rest).length) Slot.empty).toArray } : Run Frame)
      w (Settled m depths unit) := by
    refine fun rest w => yields_pure ⟨rfl, rfl, ?_, hb.entry⟩
    simp only [List.size_toArray, List.length_append, List.length_replicate]
    omega
  dsimp only
  split
  · split
    · exact yields_tame_bind (tame_pure _) fun rest w => start rest w
    · exact yields_tame_bind (tame_bind (tame_newList _) fun _ => tame_pure _) fun rest w => start rest w
  · exact yields_tame_bind (tame_pure _) fun rest w => start rest w

/-- **Checked code runs without faults.**  For a method of a unit that the checker accepts, or of a unit
nested in it, there is a height of the operand stack for each instruction such that entering the method
reports no fault, and every frame that the activation comes to, whatever it calls and whatever it
catches, has the height of its instruction and reports no fault either. -/
theorem verified_run {u v : CompiledUnit} {m : Method} (hu : u.verify = .ok ()) (hv : v.Within u) (hm : m ∈ v.methods) :
    ∃ height : Nat → Nat, ∀ (unit : Nat) (l : LoadedUnit) (this : Value) (args : List Value) (w : World),
      w.Linked → w.units[unit]? = some l → l.unit = v →
      (∀ id fault, (enter unit m this args w).1 ≠ .thrown (exceptionOf id (Fault.failure fault))) ∧
      ∀ (depth : Nat) (f g : Frame) (w₀ w' : World), enter unit m this args w = (.value f, w₀) →
        Reaches depth f w₀ g w' → g.stack.length = height g.pc ∧ ∀ fault, ¬ Reports g w' fault := by
  have hver := hv.verified hu m hm
  obtain ⟨depths, hb⟩ := hver.balanced
  refine ⟨fun pc => (depths pc).getD 0, fun unit l this args w hw hl he => ?_⟩
  subst he
  have hy := yields_enter unit m this args hb w
  refine ⟨hy.1.2, fun depth f g w₀ w' hf hr => ?_⟩
  have hc : w₀.code = w.code := by
    have := hy.1.1
    rw [hf] at this
    exact this
  obtain ⟨l', hl', he⟩ := World.unit_of_code_eq (hr.code_eq.trans hc) hl
  obtain ⟨l₀, hl₀, he₀⟩ := World.unit_of_code_eq hc hl
  have hu₀ : l₀.unit = l.unit := (LinkedCode.mk.inj he₀).1
  have hu' : l'.unit = l.unit := (LinkedCode.mk.inj he).1
  have hk : l.Linked := hw unit l hl
  have hs : Settled m depths unit g := Settled.reaches hb (by rw [hu₀]; exact hver) hr (hy.2 f w₀ hf) hl₀
    (World.linked_of_linked_eq he₀ hk)
  refine ⟨by simp only [hs.height, Option.getD_some], ?_⟩
  exact (hs.step hb (by rw [hu']; exact hver) hl' (World.linked_of_linked_eq he hk)).1

/-- A body that throws its argument if it is true, catches that again and returns it. -/
def catchingMethod : Method :=
  { name := "invoke", arity := 1, variadic := false, maxLocals := 2, params := [none], ret := none
    code := #[.load 1, .jumpIfFalsy 0, .load 1, .throw, .nil, .return, .return]
    labels := #[some 4, some 0, some 6]
    handlers := [⟨1, 0, 2, none⟩], lines := [] }

def catchingUnit : CompiledUnit := ⟨"catching", .fn false, [catchingMethod], [], #[], #[], #[], []⟩

/-- A unit whose only content is one that is nested in it. -/
def holdingUnit : CompiledUnit := ⟨"holding", .fn false, [], [], #[], #[], #[], [catchingUnit]⟩

theorem verified_run_catching : holdingUnit.verify = .ok () ∧ catchingUnit.Within holdingUnit ∧
    ∃ height : Nat → Nat, ∀ (depth : Nat) (f g : Frame) (w₀ w' : World),
      enter 0 catchingMethod .nil [.bool true] (World.bare.load holdingUnit).2 = (.value f, w₀) →
      Reaches depth f w₀ g w' → g.stack.length = height g.pc ∧ ∀ fault, ¬ Reports g w' fault := by
  have hu : holdingUnit.verify = .ok () := rfl
  have hv : catchingUnit.Within holdingUnit := .child List.mem_cons_self (.self _)
  have hw : (World.bare.load holdingUnit).2.Linked := World.Linked.load (fun k l hl => by cases hl) _
  refine ⟨hu, hv, ?_⟩
  obtain ⟨height, h⟩ := verified_run (m := catchingMethod) hu hv List.mem_cons_self
  refine ⟨height, fun depth f g w₀ w' => ?_⟩
  exact (h 0 (loadedUnit (World.bare.load holdingUnit).2 0) .nil [.bool true] _ hw rfl rfl).2 depth f g w₀ w'

end Machine

end LispMachine
