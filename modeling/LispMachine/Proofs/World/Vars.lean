import LispMachine.World.Basic
/-!
# Changes of a var

New metadata replaces the old, and the dynamic flag follows it; the flag of an expander is only ever set.  So after any number
of definitions the metadata and the dynamic flag are those of the last one, but the var is an expander if some definition said
so (`isMacro_foldl_setInfo`).
-/
namespace LispMachine

namespace Var

/-- Whether a map has a truthy entry under the unqualified keyword of that name. -/
def marked (key : String) (m : Value) : Bool := (((infoOf m).lookup key).map Value.isTruthy).getD false

section
variable (v : Var) (m : Value)

@[simp] theorem info_setInfo : (v.setInfo m).info = infoOf m := rfl

@[simp] theorem dynamic_setInfo : (v.setInfo m).dynamic = marked "dynamic" m := rfl

@[simp] theorem isMacro_setInfo : (v.setInfo m).isMacro = (v.isMacro || marked "macro" m) := rfl

/-- The dynamic flag that a var has does not matter to what new metadata makes of it. -/
theorem setInfo_withDynamic (d : Bool) : { v with dynamic := d }.setInfo m = v.setInfo m := rfl

end

/-! ## One definition after the other -/

/-- **An expander stays an expander**, whatever the later metadata says. -/
theorem isMacro_foldl_setInfo (ms : List Value) (v : Var) :
    (ms.foldl setInfo v).isMacro = (v.isMacro || ms.any (marked "macro")) := by
  induction ms generalizing v with
  | nil => rw [List.foldl_nil, List.any_nil, Bool.or_false]
  | cons m ms ih => rw [List.foldl_cons, ih, isMacro_setInfo, List.any_cons, Bool.or_assoc]

/-- The last metadata is what counts for the rest. -/
theorem foldl_setInfo_concat (ms : List Value) (m : Value) (v : Var) :
    ((ms ++ [m]).foldl setInfo v).info = infoOf m ∧ ((ms ++ [m]).foldl setInfo v).dynamic = marked "dynamic" m := by
  rw [List.foldl_append]
  exact ⟨info_setInfo _ m, dynamic_setInfo _ m⟩

end Var

namespace World

variable {w : World} {id : Nat}

@[simp] theorem size_modifyVar (w : World) (id : Nat) (f : Var → Var) : (w.modifyVar id f).vars.size = w.vars.size :=
  Array.size_modify

@[simp] theorem bindings_modifyVar (w : World) (id : Nat) (f : Var → Var) : (w.modifyVar id f).bindings = w.bindings := rfl

theorem getElem?_modifyVar_self (w : World) (id : Nat) (f : Var → Var) : (w.modifyVar id f).vars[id]? = (w.vars[id]?).map f := by
  rw [modifyVar, Array.getElem?_modify, if_pos rfl]

theorem var_modifyVar (h : id < w.vars.size) (f : Var → Var) (other : Nat) :
    (w.modifyVar id f).var other = if other = id then f (w.var id) else w.var other := by
  simp only [var, modifyVar, Array.getElem?_modify]
  split
  · rename_i heq
    subst heq
    rw [if_pos rfl, Array.getElem?_eq_getElem h, Option.map_some, Option.getD_some, Option.getD_some]
  · rename_i hne
    rw [if_neg (Ne.symm hne)]

theorem intern_of_findIn? {ns name : String} (h : w.findIn? ns name = some id) : w.intern ns name = (id, w) := by
  have hns : w.ensureNs ns = w := by
    unfold ensureNs
    cases hf : w.findNs? ns with
    | none =>
      rw [findIn?, hf] at h
      cases h
    | some _ => rfl
  rw [intern, hns, h]

end World

end LispMachine
