import LispMachine.Proofs.Analyze.Effects
import LispMachine.Proofs.World.Vars
import LispMachine.Session
/-!
# What compiling leaves alone

Compiling a form analyzes it, and analysis makes vars and declares types before anything runs.  A var that exists keeps its root,
its metadata and its being an expander, provided that no expander is a function of the program (`compile_var`), and it keeps its
name (`compile_findIn?`).  Only the dynamic flag is not safe: a definition sets it when it is analyzed.
-/
namespace LispMachine

open Analysis Analyze

namespace World

variable {w w' : World} {id : Nat} {v : Var} {ns name : String}

/-- All expanders are built in. -/
def Native (w : World) : Prop := ∀ id, (w.var id).isMacro = true → ∃ e, (w.var id).root = some (.native (.expander e))

/-- The var is this one, but for the dynamic flag. -/
def HasVar (w : World) (id : Nat) (v : Var) : Prop := ∃ dynamic, w.vars[id]? = some { v with dynamic }

/-- Vars and their names. -/
def directory (w : World) : Array Var × List Namespace := (w.vars, w.namespaces)

/-! ## New names -/

theorem vars_ensureNs (w : World) (ns : String) : (w.ensureNs ns).vars = w.vars := by
  unfold ensureNs
  split <;> rfl

/-- A name that is interned has a var or gets a new one. -/
theorem vars_intern (w : World) (ns name : String) :
    (w.intern ns name).2.vars = w.vars ∨ (w.intern ns name).2.vars = w.vars.push { name := ⟨some ns, name⟩ } := by
  unfold intern
  dsimp only
  split
  · exact .inl (w.vars_ensureNs ns)
  · exact .inr (by rw [vars_ensureNs])

theorem Native.of_vars (h : w.Native) (hv : w'.vars = w.vars) : w'.Native := by
  intro id
  rw [var, hv]
  exact h id

theorem Native.intern (h : w.Native) (ns name : String) : (w.intern ns name).2.Native := by
  rcases vars_intern w ns name with hv | hv
  · exact h.of_vars hv
  · intro id hm
    rw [var, hv, Array.getElem?_push] at hm ⊢
    split at hm
    · cases hm
    · rename_i hne
      rw [if_neg hne]
      exact h id hm

theorem HasVar.of_vars (h : w.HasVar id v) (hv : w'.vars = w.vars) : w'.HasVar id v := by
  unfold HasVar
  rw [hv]
  exact h

theorem HasVar.intern (h : w.HasVar id v) (ns name : String) : (w.intern ns name).2.HasVar id v := by
  rcases vars_intern w ns name with hv | hv
  · exact h.of_vars hv
  · obtain ⟨dynamic, h⟩ := h
    refine ⟨dynamic, ?_⟩
    rw [hv, Array.getElem?_push, if_neg (Nat.ne_of_lt (Array.getElem?_eq_some_iff.1 h).1), h]

theorem findIn?_ensureNs (h : w.findIn? ns name = some id) (ns' : String) : (w.ensureNs ns').findIn? ns name = some id := by
  unfold ensureNs
  split
  · exact h
  · obtain ⟨n, hn, hv⟩ := Option.bind_eq_some_iff.1 h
    refine Option.bind_eq_some_iff.2 ⟨n, ?_, hv⟩
    rw [findNs?] at hn ⊢
    rw [List.find?_append, hn]
    rfl

/-- A name is added behind those that are there. -/
theorem find?_mapName {namespaces : List Namespace} {n : Namespace} (h : namespaces.find? (fun n => n.name == ns) = some n)
    (hname : n.vars.lookup name = some id) (ns' name' : String) (id' : Nat) :
    ∃ n', (mapName ns' name' id' namespaces).find? (fun n => n.name == ns) = some n' ∧ n'.vars.lookup name = some id := by
  induction namespaces with
  | nil => cases h
  | cons m rest ih =>
    rw [mapName]
    rw [List.find?_cons] at h
    split at h
    · rename_i hm
      obtain rfl := Option.some.inj h
      split
      · refine ⟨_, List.find?_cons_of_pos hm, ?_⟩
        rw [List.lookup_append, hname]
        rfl
      · exact ⟨m, List.find?_cons_of_pos hm, hname⟩
    · rename_i hm
      split
      · exact ⟨n, by simpa only [List.find?_cons, hm] using h, hname⟩
      · obtain ⟨n', hn', hname'⟩ := ih h
        exact ⟨n', by simpa only [List.find?_cons, hm] using hn', hname'⟩

theorem findIn?_intern (h : w.findIn? ns name = some id) (ns' name' : String) : (w.intern ns' name').2.findIn? ns name = some id := by
  have h := findIn?_ensureNs h ns'
  unfold intern
  dsimp only
  split
  · exact h
  · obtain ⟨n, hn, hname⟩ := Option.bind_eq_some_iff.1 h
    exact Option.bind_eq_some_iff.2 (find?_mapName hn hname ns' name' _)

/-! ## The dynamic flag -/

theorem Native.flag (h : w.Native) (id : Nat) (dynamic : Bool) : (w.modifyVar id fun v => { v with dynamic }).Native := by
  intro id' hm
  have hvar : ∃ d, (w.modifyVar id fun v => { v with dynamic }).var id' = { w.var id' with dynamic := d } := by
    rw [var, modifyVar, Array.getElem?_modify]
    split
    · rename_i he
      subst he
      rw [var]
      cases w.vars[id]? with
      | none => exact ⟨_, rfl⟩
      | some v => exact ⟨_, rfl⟩
    · exact ⟨_, rfl⟩
  obtain ⟨d, hd⟩ := hvar
  rw [hd] at hm ⊢
  exact h id' hm

theorem HasVar.flag (h : w.HasVar id v) (id' : Nat) (dynamic : Bool) : (w.modifyVar id' fun v => { v with dynamic }).HasVar id v := by
  obtain ⟨d, h⟩ := h
  rw [HasVar, modifyVar, Array.getElem?_modify]
  split
  · exact ⟨dynamic, by rw [h]; rfl⟩
  · exact ⟨d, h⟩

/-! ## What endures -/

/-- Where all expanders are built in, no function of the program runs. -/
theorem endures_native {Q : World → Prop} (hsame : ∀ {w w' : World}, Q w → w'.directory = w.directory → Q w')
    (hintern : ∀ {w : World} (ns name : String), Q w → Q (w.intern ns name).2)
    (hflag : ∀ {w : World} (id : Nat) (dynamic : Bool), Q w → Q (w.modifyVar id fun v => { v with dynamic })) :
    Endures fun w => w.Native ∧ Q w where
  register _ _ _ _ h := ⟨h.1.of_vars rfl, hsame h.2 rfl⟩
  push h _ _ _ := ⟨h.1.of_vars rfl, hsame h.2 rfl⟩
  attach _ _ h := ⟨h.1.of_vars rfl, hsame h.2 rfl⟩
  intern ns name h := ⟨h.1.intern ns name, hintern ns name h.2⟩
  identify _ h := ⟨h.1.of_vars rfl, hsame h.2 rfl⟩
  generate _ h := ⟨h.1.of_vars rfl, hsame h.2 rfl⟩
  flag id dynamic h := ⟨h.1.flag id dynamic, hflag id dynamic h.2⟩
  declare _ _ _ h := ⟨h.1.of_vars rfl, hsame h.2 rfl⟩
  expand _ _ h hm hroot hne := by
    obtain ⟨e, he⟩ := h.1 _ hm
    exact absurd (Option.some.inj (hroot.symm.trans he)) (hne e)

end World

namespace Session

variable {s : Session} {id : Nat} {v : Var} {ns name : String}

/-- What endures the steps of an analysis outlasts the compilation of a form. -/
theorem compile_endures {P : World → Prop} (hP : World.Endures P) (h : P s.world) (f : Form) : P (s.compile f).2.world := by
  have hthunk : ∀ f, Outlasts P (compileThunk f) := fun f => by
    refine (lasting_formWithin hP allowance .expression _).bind fun e => ?_
    split
    · exact outlasts_pure _
    · exact outlasts_fail _
  refine ((outlasts_fully hP allowance f).bind fun f => hthunk f) _ ?_
  unfold Context.moveTo
  split <;> exact h

/-- **Compiling leaves a var its root, its metadata and its being an expander**, if all expanders are built in. -/
theorem compile_var (hn : s.world.Native) (hv : s.world.vars[id]? = some v) (f : Form) :
    ∃ dynamic, (s.compile f).2.world.vars[id]? = some { v with dynamic } := by
  have hP : World.Endures fun w => w.Native ∧ w.HasVar id v :=
    World.endures_native (fun h hsame => h.of_vars (congrArg Prod.fst hsame)) (fun ns name h => h.intern ns name)
      fun id dynamic h => h.flag id dynamic
  exact (compile_endures hP ⟨hn, v.dynamic, hv⟩ f).2

/-- **Compiling leaves a name its var.** -/
theorem compile_findIn? (hn : s.world.Native) (h : s.world.findIn? ns name = some id) (f : Form) :
    (s.compile f).2.world.findIn? ns name = some id := by
  have hP : World.Endures fun w => w.Native ∧ w.findIn? ns name = some id := by
    refine World.endures_native (fun h hsame => ?_) (fun ns' name' h => World.findIn?_intern h ns' name') fun _ _ h => h
    have hnamespaces : _ = _ := congrArg Prod.snd hsame
    simp only [World.directory] at hnamespaces
    rw [World.findIn?, World.findNs?, hnamespaces]
    exact h
  exact (compile_endures hP ⟨hn, h⟩ f).2

end Session

end LispMachine
