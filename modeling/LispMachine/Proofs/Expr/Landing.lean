import LispMachine.Proofs.Expr.Meaning
import LispMachine.Proofs.Expr.Scoped
import LispMachine.Proofs.Machine.Comes
import LispMachine.Proofs.World.Answered
/-!
# Frames at the code of an expression

`Ready` says that a frame may start on the code of an expression, `Lands` where it is when it has come to the
end of it: the value is dropped, pushed or about to be returned, or the locals of the loop are rebound.  The
frame keeps its stack below the value and the slots below those that the expression introduces.  An expression
is `Faithful` if its code takes a frame from the one to the other as its evaluation says, wherever it stands.

The rest are the parts that the code of all expressions shares: the way of a value to its destination, locals
and operands.
-/
namespace LispMachine

namespace Activation

/-- What the compiler knows about the method, with the place where a `recur` goes. -/
def env (S : Activation) (head : Label) : EmitEnv :=
  { context := S.context, obj := S.obj, frame := S.frame, ret := S.ret, loopHead := head }

/-- The finished method is one without handlers, compiled without clearing of locals, and its tables are
linked to those of the activation. -/
structure Installed (S : Activation) (i : Image) : Prop where
  handlers : i.method.handlers = []
  keeps : S.context.options.disableLocalsClearing = true
  answers : ∀ (n : Need) (e : Nat), i.pool.Provides n e → S.tables.Answers n e
  place : ∀ f : Frame, f.this = S.this → f.fieldsPlace = .ok S.place

/-- The frame is one of the activation and holds the values of the locals in scope. -/
structure Ready (S : Activation) (i : Image) (bound : Nat) (scope : List Nat) (ρ : Locals) (f : Frame) (w : World) :
    Prop where
  inScope : S.context.ScopeOk S.frame bound scope
  method : f.method = i.method
  unit : f.unit = S.unit
  this : f.this = S.this
  room : (S.context.method S.frame).maxSlot < f.locals.size
  holds : ∀ b ∈ scope, f.locals[(S.context.binding b).slot]? = some (ρ b)
  hosts : ∃ l, w.units[S.unit]? = some l ∧ l.linked = S.tables

/-- Where the frame comes at the end of an expression. -/
def Lands (S : Activation) (loop : Option (List Nat)) (head : Label) (bound : Nat) (f : Frame) (pc' : Nat) :
    Landing → Frame → Prop
  | .dropped, g => f.Comes bound pc' f.stack g
  | .pushed s, g => f.Comes bound pc' (s :: f.stack) g
  | .returned v, g => g.method = f.method ∧ f.method.code[g.pc]? = some .return ∧
    ∃ s rest, g.stack = s :: rest ∧ s.toValue = v
  | .again us, g => loop = some (us.map (·.1)) ∧ f.method.code[g.pc]? = some (.jump head) ∧ g.unit = f.unit ∧
    g.method = f.method ∧ g.this = f.this ∧ g.locals.size = f.locals.size ∧ g.stack = f.stack ∧
    (∀ u ∈ us, g.locals[(S.context.binding u.1).slot]? = some u.2) ∧
    ∀ slot < bound, (∀ u ∈ us, (S.context.binding u.1).slot ≠ slot) → g.locals[slot]? = f.locals[slot]?

/-- The locals that a `recur` rebinds are distinct ones in scope. -/
def Rebindable (scope : List Nat) (loop : Option (List Nat)) : Prop :=
  ∀ ts, loop = some ts → ts.Nodup ∧ ∀ t ∈ ts, t ∈ scope

/-- The code of the expression does what the expression means, wherever it stands. -/
def Faithful (S : Activation) (i : Image) (n : Nat) (e : Expr) : Prop :=
  ∀ {bound : Nat} {scope : List Nat} {loop : Option (List Nat)} {head : Label} {dest : Dest} {k : Nat} {ρ : Locals}
    {f : Frame} {w : World} {pc' : Nat} {hs : List Handler},
    e.Scoped S.context S.frame bound scope loop → Rebindable scope loop → S.Ready i bound scope ρ f w →
    Emit.Laid (S.env head) dest e i S.entryOf k f.pc pc' hs →
    Machine.Realizes S.depth n f w (S.Lands loop head bound f pc')
      ((e.meaning S n k ρ >>= fun r => Run.ofExcept (r.land S.ret dest)) w)

variable {S : Activation} {i : Image} {bound bound' : Nat} {scope : List Nat} {ρ : Locals} {f g : Frame} {w w' : World}
  {loop : Option (List Nat)} {head : Label} {p pc pc' n : Nat} {st : List Slot} {dest : Dest}

theorem Rebindable.cons (h : Rebindable scope loop) (b : Nat) : Rebindable (b :: scope) loop := fun ts ht =>
  ⟨(h ts ht).1, fun t hm => List.mem_cons_of_mem b ((h ts ht).2 t hm)⟩

theorem rebindable_none (scope : List Nat) : Rebindable scope none := fun _ h => by cases h

theorem Ready.handlers (hr : S.Ready i bound scope ρ f w) (hi : S.Installed i) : f.method.handlers = [] := by
  rw [hr.method]
  exact hi.handlers

theorem Ready.comes {v : World} (hr : S.Ready i bound scope ρ f w) (hg : f.Comes bound p st g) (hc : v.code = w.code) :
    S.Ready i bound scope ρ g v := by
  obtain ⟨l, hl, ht⟩ := hr.hosts
  obtain ⟨l', hl', ht'⟩ := World.unit_of_code_eq hc hl
  refine ⟨hr.inScope, hg.method.trans hr.method, hg.unit.trans hr.unit, hg.this.trans hr.this, ?_, ?_, l', hl', ht'.trans ht⟩
  · rw [hg.size]
    exact hr.room
  · intro b hb
    rw [hg.locals _ (hr.inScope.below b hb)]
    exact hr.holds b hb

/-- A new local gets its value. -/
theorem Ready.introduces (hr : S.Ready i bound scope ρ f w) {b : Nat} (hb : S.context.Introduces S.frame bound b) (pc : Nat)
    (stack : List Slot) (s : Slot) : S.Ready i ((S.context.binding b).slot + 1) (b :: scope) (ρ.set b s)
      { f with pc, stack, locals := f.locals.modify (S.context.binding b).slot fun _ => s } w := by
  refine ⟨hb.scopeOk hr.inScope, hr.method, hr.unit, hr.this, ?_, ?_, hr.hosts⟩
  · simpa using hr.room
  · intro b' hb'
    have hlt : (S.context.binding b).slot < f.locals.size := Nat.lt_of_le_of_lt hb.within hr.room
    rcases List.mem_cons.1 hb' with rfl | hb'
    · simp only [Array.getElem?_modify, Locals.set, if_true, Array.getElem?_eq_getElem hlt, Option.map_some]
    · have hne : b' ≠ b := fun h => hb.not_mem hr.inScope (h ▸ hb')
      have hslot : (S.context.binding b).slot ≠ (S.context.binding b').slot :=
        Nat.ne_of_gt (Nat.lt_of_lt_of_le (hr.inScope.below b' hb') hb.above)
      simp only [Array.getElem?_modify, Locals.set, if_neg hne, if_neg hslot]
      exact hr.holds b' hb'

theorem Ready.comes_introduces {b : Nat} (hb : S.context.Introduces S.frame bound b) (f : Frame) (pc : Nat)
    (stack : List Slot) (s : Slot) : f.Comes bound pc stack
      { f with pc, stack, locals := f.locals.modify (S.context.binding b).slot fun _ => s } := by
  refine ⟨rfl, rfl, rfl, by simp, fun slot hs => ?_, rfl, rfl⟩
  have hne : (S.context.binding b).slot ≠ slot := Nat.ne_of_gt (Nat.lt_of_lt_of_le hs hb.above)
  simp only [Array.getElem?_modify, if_neg hne]

/-- A local in scope gets another value. -/
theorem Ready.assigns (hr : S.Ready i bound scope ρ f w) {b : Nat} (hb : b ∈ scope) (pc : Nat) (stack : List Slot) (s : Slot) :
    S.Ready i bound scope (ρ.set b s)
      { f with pc, stack, locals := f.locals.modify (S.context.binding b).slot fun _ => s } w := by
  refine ⟨hr.inScope, hr.method, hr.unit, hr.this, ?_, ?_, hr.hosts⟩
  · simpa using hr.room
  · intro b' hb'
    have hlt : (S.context.binding b).slot < f.locals.size := Nat.lt_of_le_of_lt (hr.inScope.within b hb) hr.room
    by_cases he : b' = b
    · rw [he]
      simp only [Array.getElem?_modify, Locals.set, if_true, Array.getElem?_eq_getElem hlt, Option.map_some]
    · have hslot : (S.context.binding b).slot ≠ (S.context.binding b').slot :=
        fun h => he (hr.inScope.distinct b' hb' b hb h.symm)
      simp only [Array.getElem?_modify, Locals.set, if_neg he, if_neg hslot]
      exact hr.holds b' hb'

theorem Ready.moved (hr : S.Ready i bound scope ρ f w) (pc : Nat) (stack : List Slot) :
    S.Ready i bound scope ρ { f with pc, stack } w :=
  hr.comes (Frame.comes_to bound f pc stack) rfl

/-! ## Tables -/

theorem value_eq {k : Nat} {v : Value} (h : S.tables.constants[S.entryOf k]? = some v) : S.value k = v := by
  simp only [value, h, Option.getD_some]

theorem varId_eq {k id : Nat} {name : Symbol} (h : S.tables.constants[S.entryOf k]? = some (.var id name)) : S.varId k = id := by
  simp only [varId, value_eq h]

theorem type_eq {k : Nat} {id : ClassId} {name : String} (h : S.tables.constants[S.entryOf k]? = some (.type id name)) :
    S.type k = (id, name) := by
  simp only [type, value_eq h]

theorem member?_eq {k : Nat} {m : HostMember} (h : S.tables.hosts[S.entryOf k]? = some (some m)) : S.member? k = some m := by
  simp only [member?, h, Option.join_some]

theorem Ready.constant (hr : S.Ready i bound scope ρ f w) {e : Nat} {v : Value} (hv : S.tables.constants[e]? = some v) :
    f.constant w e = .ok v := by
  obtain ⟨l, hl, ht⟩ := hr.hosts
  have hc : l.constants = S.tables.constants := congrArg LinkedCode.constants ht
  simp only [Frame.constant, Frame.loaded, hr.unit, hl, Option.getD_some, hc, hv]

theorem Ready.varAt (hr : S.Ready i bound scope ρ f w) {e id : Nat} {name : Symbol}
    (hv : S.tables.constants[e]? = some (.var id name)) : f.varAt w e = .ok id := by
  simp only [Frame.varAt, hr.constant hv]
  rfl

theorem Ready.classAt (hr : S.Ready i bound scope ρ f w) {e : Nat} {id : ClassId} {name : String}
    (hv : S.tables.constants[e]? = some (.type id name)) : f.classAt w e = .ok (id, name) := by
  simp only [Frame.classAt, hr.constant hv]
  rfl

theorem Ready.nameAt (hr : S.Ready i bound scope ρ f w) {e : Nat} {s : String}
    (hv : S.tables.constants[e]? = some (.str s)) : f.nameAt w e = .ok s := by
  simp only [Frame.nameAt, hr.constant hv]
  rfl

theorem Ready.memberAt (hr : S.Ready i bound scope ρ f w) {e : Nat} {m : HostMember}
    (hm : S.tables.hosts[e]? = some (some m)) : f.memberAt w e = .ok m := by
  obtain ⟨l, hl, ht⟩ := hr.hosts
  have hh : l.hosts = S.tables.hosts := congrArg LinkedCode.hosts ht
  simp only [Frame.memberAt, Frame.loaded, hr.unit, hl, Option.getD_some, hh, hm, Option.join_some]

theorem Ready.childAt (hr : S.Ready i bound scope ρ f w) (e : Nat) : (f.loaded w).children[e]? = S.tables.children[e]? := by
  obtain ⟨l, hl, ht⟩ := hr.hosts
  have hc : l.children = S.tables.children := congrArg LinkedCode.children ht
  simp only [Frame.loaded, hr.unit, hl, Option.getD_some, hc]

theorem Lands.of_comes {h : Frame} {a : Landing} (hf : f.Comes bound p f.stack g) (hl : S.Lands loop head bound g pc' a h) :
    S.Lands loop head bound f pc' a h := by
  cases a with
  | dropped =>
    have h := Frame.Comes.trans hf hl
    rw [hf.stack] at h
    exact h
  | pushed s =>
    have h := Frame.Comes.trans hf hl
    rw [hf.stack] at h
    exact h
  | returned v => exact ⟨hl.1.trans hf.method, hf.method ▸ hl.2.1, hl.2.2⟩
  | again us =>
    obtain ⟨h₁, h₂, h₃, h₄, h₅, h₆, h₇, h₈, h₉⟩ := hl
    refine ⟨h₁, hf.method ▸ h₂, h₃.trans hf.unit, h₄.trans hf.method, h₅.trans hf.this, h₆.trans hf.size,
      h₇.trans hf.stack, h₈, fun slot hs hu => ?_⟩
    rw [h₉ slot hs hu, hf.locals slot hs]

theorem Lands.below {a : Landing} (hb : bound' ≤ bound) (hl : S.Lands loop head bound f pc' a g) :
    S.Lands loop head bound' f pc' a g := by
  cases a with
  | dropped => exact Frame.Comes.below hl hb
  | pushed s => exact Frame.Comes.below hl hb
  | returned v => exact hl
  | again us =>
    obtain ⟨h₁, h₂, h₃, h₄, h₅, h₆, h₇, h₈, h₉⟩ := hl
    exact ⟨h₁, h₂, h₃, h₄, h₅, h₆, h₇, h₈, fun slot hs => h₉ slot (Nat.lt_of_lt_of_le hs hb)⟩

end Activation

namespace Machine

open LispMachine.Emit LispMachine.Frame

variable {S : Activation} {i : Image} {bound bound' : Nat} {scope : List Nat} {ρ : Locals} {f g : Frame} {w w' : World}
  {loop : Option (List Nat)} {head : Label} {p pc pc' n depth : Nat} {st : List Slot} {dest : Dest}

/-! ## The way to the destination -/

theorem reaches_box (depth bound : Nat) (w : World) {kind : Option Prim} {s : Slot} (hm : g.method = i.method) (hst : g.stack = s :: st)
    (hs : i.Spans (boxCode kind) g.pc p) :
    ∃ h, Reaches depth g w h w ∧ g.Comes bound p (s.boxAs kind :: st) h := by
  cases kind with
  | none =>
    cases hs
    refine ⟨g, .refl g w, ?_⟩
    have h := Comes.refl bound g
    rw [hst] at h
    exact h
  | some q =>
    obtain ⟨hj, he⟩ := hs
    cases he
    rw [← hm] at hj
    exact ⟨_, .single (goes_local hj rfl (stepLocal_box q hst)), comes_to bound g _ _⟩

theorem realizes_unbox {kind : Option Prim} {q : Prim} {s : Slot} (hh : g.method.handlers = []) (hm : g.method = i.method)
    (hst : g.stack = s :: st) (hs : i.Spans (unboxCode kind q) g.pc p) :
    Realizes depth n g w (fun s' => g.Comes bound p (s' :: st)) (Run.ofExcept (s.unboxAs kind q) w) := by
  cases kind with
  | none =>
    obtain ⟨hj, he⟩ := hs
    cases he
    rw [← hm] at hj
    exact realizes_local _ hh hj rfl (stepLocal_unbox q hst)
  | some own =>
    simp only [unboxCode, Slot.unboxAs] at hs ⊢
    split at hs
    · rename_i ho
      cases hs
      rw [if_pos ho]
      have h := Comes.refl bound g
      rw [hst] at h
      exact .value (.refl g w) h
    · rename_i ho
      obtain ⟨hj, he⟩ := hs
      cases he
      rw [← hm] at hj
      rw [if_neg ho]
      exact realizes_local _ hh hj rfl (stepLocal_convert own q hst)

/-- A value on top of the stack is taken to its destination. -/
theorem realizes_settle (hi : S.Installed i) {kind : Option Prim} {s : Slot} (hf : f.method = i.method)
    (hg : f.Comes bound p (s :: f.stack) g) (hs : i.Spans (settleCode (S.env head) dest kind) p pc') :
    Realizes S.depth n g w (S.Lands loop head bound f pc') (Run.ofExcept ((Flow.value kind s).land S.ret dest) w) := by
  have hm : g.method = i.method := hg.method.trans hf
  have hh : g.method.handlers = [] := by
    rw [hm]
    exact hi.handlers
  rw [← hg.pc] at hs
  cases dest with
  | statement =>
    obtain ⟨q, hb, hj, he⟩ := Image.spans_append.1 hs
    cases he
    obtain ⟨h, hr, hc⟩ := reaches_box S.depth bound w hm hg.stack hb
    rw [← hm, ← hc.pc, ← hc.method] at hj
    refine .value (hr.trans (.single (goes_local hj rfl (stepLocal_pop hc.stack)))) ?_
    exact (hg.trans hc).trans ⟨rfl, rfl, rfl, rfl, fun _ _ => rfl, congrArg (· + 1) hc.pc, rfl⟩
  | boxed =>
    obtain ⟨h, hr, hc⟩ := reaches_box S.depth bound w hm hg.stack hs
    exact .value hr (hg.trans hc)
  | unboxed q =>
    have h : Realizes S.depth n g w (fun s' => g.Comes bound _ (s' :: f.stack)) _ := realizes_unbox hh hm hg.stack hs
    simp only [Flow.land]
    cases hu : s.unboxAs kind q with
    | error e =>
      rw [hu] at h
      cases h with
      | thrown hr he => exact .thrown hr he
    | ok s' =>
      rw [hu] at h
      cases h with
      | value hr hc => exact .value hr (hg.trans hc)
  | result =>
    simp only [settleCode, Activation.env, Flow.land] at hs ⊢
    cases hret : S.ret with
    | none =>
      rw [hret] at hs
      obtain ⟨q, hb, hj, he⟩ := Image.spans_append.1 hs
      obtain ⟨h, hr, hc⟩ := reaches_box S.depth bound w hm hg.stack hb
      refine .value hr ⟨hc.method.trans hg.method, ?_, _, _, hc.stack, ?_⟩
      · rw [hc.pc, hf]
        exact hj
      · cases kind <;> rfl
    | some q =>
      rw [hret] at hs
      obtain ⟨q', hb, hj, hj', he⟩ := Image.spans_append.1 hs
      have h : Realizes S.depth n g w (fun s' => g.Comes bound _ (s' :: f.stack)) _ := realizes_unbox hh hm hg.stack hb
      dsimp only
      cases hu : s.unboxAs kind q with
      | error e =>
        rw [hu] at h
        cases h with
        | thrown hr he => exact .thrown hr he
      | ok s' =>
        rw [hu] at h
        cases h with
        | value hr hc =>
          rename_i h
          rw [← hm, ← hc.pc, ← hc.method] at hj
          refine .value (hr.trans (.single (goes_local hj rfl (stepLocal_box q hc.stack)))) ?_
          refine ⟨hc.method.trans hg.method, ?_, _, _, rfl, rfl⟩
          rw [hf]
          show i.method.code[h.pc + 1]? = some .return
          rw [hc.pc]
          exact hj'

/-! ## Locals -/

theorem localInstr?_env (hi : S.Installed i) (head : Label) (r : LocalRef) : localInstr? (S.env head) r =
    if (S.context.binding r.binding).method == some S.frame then
      some (if (S.context.binding r.binding).slot == 0 then .loadThis else .load (S.context.binding r.binding).slot)
    else ((S.context.object S.obj).fieldIndex? r.binding).map .loadField := by
  simp only [localInstr?, Activation.env, hi.keeps, Bool.not_true, Bool.false_and, Bool.false_eq_true, if_false]

/-- A local is pushed as it is held. -/
theorem realizes_lookup (hi : S.Installed i) (hr : S.Ready i bound scope ρ f w) {r : LocalRef} {j : Instr}
    (hs : S.context.Sees S.frame scope r) (hj : localInstr? (S.env head) r = some j) (hc : i.method.code[f.pc]? = some j) :
    Realizes S.depth n f w (fun s => f.Comes bound (f.pc + 1) (s :: f.stack)) (S.lookup ρ r w) := by
  rw [← hr.method] at hc
  rw [localInstr?_env hi] at hj
  simp only [Activation.lookup, Run.read]
  split at hj
  · rename_i hown
    rw [if_pos hown]
    cases hj
    split at hc
    · rename_i hz
      rw [if_pos hz]
      refine .value (.single (goes_local hc rfl rfl)) ?_
      rw [← hr.this]
      exact comes_to bound f _ _
    · rename_i hz
      rw [if_neg hz]
      have hmem := (hs (by simpa using hown)).resolve_left (by simpa using hz)
      refine .value (.single (goes_local hc rfl (stepLocal_load (f := { f with pc := f.pc + 1 }) (hr.holds _ hmem)))) ?_
      exact comes_to bound f _ _
  · rename_i hown
    rw [if_neg hown]
    obtain ⟨idx, hidx, rfl⟩ := Option.map_eq_some_iff.1 hj
    rw [hidx]
    refine .value (.single (.next hc ?_)) (comes_to bound f (f.pc + 1) _)
    have hp : Frame.fieldsPlace { f with pc := f.pc + 1 } = .ok S.place := hi.place _ hr.this
    simp only [step, stepData, hp]
    rfl

theorem realizes_lookups (hi : S.Installed i) : ∀ {rs : List LocalRef} {f : Frame} {w : World},
    S.Ready i bound scope ρ f w → (∀ r ∈ rs, S.context.Sees S.frame scope r) → Visible (S.env head) rs →
    i.Spans (localCode (S.env head) rs) f.pc p →
    Realizes S.depth n f w (fun ss g => f.Comes bound p (ss.reverse ++ f.stack) g ∧ ss.length = rs.length)
      (Run.forList (S.lookup ρ) rs w)
  | [], f, w, _, _, _, hs => by
    cases hs
    exact .pure ⟨Comes.refl bound f, rfl⟩
  | r :: rs, f, w, hr, hsees, hv, hs => by
    obtain ⟨j, hj⟩ := Option.isSome_iff_exists.1 (hv r List.mem_cons_self)
    simp only [localCode, List.filterMap_cons, hj] at hs
    refine (realizes_lookup hi hr (hsees r List.mem_cons_self) hj hs.1).bind fun s g w' _ hreach hg => ?_
    have hr' := hr.comes hg hreach.code_eq
    refine (realizes_lookups hi hr' (fun r' h => hsees r' (List.mem_cons_of_mem r h))
      (fun r' h => hv r' (List.mem_cons_of_mem r h)) (by rw [hg.pc]; exact hs.2)).bind fun ss h w'' _ _ hh => ?_
    refine .pure ⟨?_, by rw [List.length_cons, hh.2, List.length_cons]⟩
    have := hg.trans hh.1
    rw [hg.stack] at this
    simpa using this

/-! ## Operands and results -/

/-- The value of an operand is on the stack. -/
theorem Realizes.held {q ret : Option Prim} {x : Run Flow} (h : Realizes depth n f w (S.Lands none head bound f pc')
    ((x >>= fun r => Run.ofExcept (r.land ret (Dest.ofPrim q))) w)) :
    Realizes depth n f w (fun s => f.Comes bound pc' (s :: f.stack)) (Run.held q x w) := by
  unfold Run.held
  rcases he : x w with ⟨(⟨kind, s⟩ | us) | t | _, w'⟩
  · rw [Run.bind_value he] at h ⊢
    cases q with
    | none =>
      cases h with
      | value hr hl => exact .value hr hl
    | some q =>
      simp only [Dest.ofPrim, Flow.land, Slot.holdAs] at h ⊢
      cases hu : s.unboxAs kind q with
      | error e =>
        rw [hu] at h
        cases h with
        | thrown hr he => exact .thrown hr he
      | ok s' =>
        rw [hu] at h
        cases h with
        | value hr hl => exact .value hr hl
  · rw [Run.bind_value he] at h
    cases h with
    | value hr hl => cases hl.1
  · rw [Run.bind_thrown he] at h ⊢
    cases h with
    | thrown hr he => exact .thrown hr he
  · rw [Run.bind_cut he] at h ⊢
    cases h with
    | cut hs => exact .cut hs

/-- The value of a statement is dropped. -/
theorem Realizes.dropped {ret : Option Prim} {x : Run Flow} (h : Realizes depth n f w (S.Lands none head bound f pc')
    ((x >>= fun r => Run.ofExcept (r.land ret .statement)) w)) :
    Realizes depth n f w (fun _ => f.Comes bound pc' f.stack) (Run.held none x w) := by
  unfold Run.held
  rcases he : x w with ⟨(⟨kind, s⟩ | us) | t | _, w'⟩
  · rw [Run.bind_value he] at h ⊢
    cases h with
    | value hr hl => exact .value hr hl
  · rw [Run.bind_value he] at h
    cases h with
    | value hr hl => cases hl.1
  · rw [Run.bind_thrown he] at h ⊢
    cases h with
    | thrown hr he => exact .thrown hr he
  · rw [Run.bind_cut he] at h ⊢
    cases h with
    | cut hs => exact .cut hs

/-- The last instruction of an expression, and the way to the destination. -/
theorem realizes_last {α : Type} {x : Run α} (slot : α → Slot) {kind : Option Prim} {j : Instr} (hi : S.Installed i)
    (hf : f.method = i.method) (hg : f.Comes bound p st g) (hs : i.Spans (j :: settleCode (S.env head) dest kind) p pc')
    (hstep : step { g with pc := g.pc + 1 } j w =
      (x >>= fun a => pure (Action.next { g with pc := g.pc + 1, stack := slot a :: f.stack })) w) :
    Realizes S.depth n g w (S.Lands loop head bound f pc')
      ((x >>= fun a => Run.ofExcept ((Flow.value kind (slot a)).land S.ret dest)) w) := by
  have hm : g.method = i.method := hg.method.trans hf
  have hj : g.method.code[g.pc]? = some j := by
    rw [hm, hg.pc]
    exact hs.1
  refine (realizes_step (P := fun a => g.Comes bound (p + 1) (slot a :: f.stack)) ?_ hj hstep fun a _ _ => ?_).bind
    fun a h w' _ _ hc => realizes_settle hi hf (hg.trans hc) hs.2
  · rw [hm]
    exact hi.handlers
  · exact ⟨rfl, rfl, rfl, rfl, fun _ _ => rfl, congrArg (· + 1) hg.pc, rfl⟩

/-- A call as the last instruction of an expression. -/
theorem realizes_lastCall {x : Run Answer} {j : Instr} (hi : S.Installed i) (hf : f.method = i.method)
    (hg : f.Comes bound p st g) (hs : i.Spans (j :: settleCode (S.env head) dest none) p pc')
    (hstep : step { g with pc := g.pc + 1 } j w =
      (x >>= fun a => pure (Action.ofAnswer { g with pc := g.pc + 1, stack := f.stack } a)) w) :
    Realizes S.depth n g w (S.Lands loop head bound f pc') ((x >>= fun a => complete n S.depth a >>= fun v =>
      Run.ofExcept ((Flow.value none (.obj v)).land S.ret dest)) w) := by
  have hm : g.method = i.method := hg.method.trans hf
  have hj : g.method.code[g.pc]? = some j := by
    rw [hm, hg.pc]
    exact hs.1
  rw [← bind_assoc]
  refine (realizes_call (P := fun v => g.Comes bound (p + 1) (.obj v :: f.stack)) ?_ hj hstep fun v => ?_).bind
    fun v h w' _ _ hc => realizes_settle hi hf (hg.trans hc) hs.2
  · rw [hm]
    exact hi.handlers
  · exact ⟨rfl, rfl, rfl, rfl, fun _ _ => rfl, congrArg (· + 1) hg.pc, rfl⟩

/-- A value without effect: nothing happens if it is dropped. -/
theorem realizes_inert {x : Run Slot} {kind : Option Prim} {push : List Instr} (hi : S.Installed i)
    (hf : f.method = i.method) (hx : dest = .statement → ∃ s, x w = (.value s, w))
    (hs : i.Spans (inertCode (S.env head) dest kind push) f.pc pc')
    (hp : ∀ p, dest ≠ .statement → i.Spans push f.pc p →
      Realizes S.depth n f w (fun s => f.Comes bound p (s :: f.stack)) (x w)) :
    Realizes S.depth n f w (S.Lands loop head bound f pc')
      ((x >>= fun s => Run.ofExcept ((Flow.value kind s).land S.ret dest)) w) := by
  by_cases hd : dest = .statement
  · obtain ⟨s, hv⟩ := hx hd
    rw [hd] at hs ⊢
    cases hs
    rw [Run.bind_value hv]
    exact .value (.refl f w) (Comes.refl bound f)
  · unfold inertCode at hs
    rw [if_neg (by simpa using hd)] at hs
    obtain ⟨p, hpush, hset⟩ := Image.spans_append.1 hs
    exact (hp p hd hpush).bind fun s g w' _ _ hc => realizes_settle hi hf hc hset

end Machine

end LispMachine
