import LispMachine.Proofs.Run.Library
import LispMachine.Machine.Execute
/-!
# Running keeps the code

Whatever an instruction does, and whatever it calls, the loaded units and the classes are afterwards
what they were before, up to the caches of the call sites.  Up to `step` the proofs follow the text of
the definitions; from there on the induction is on the allowance, through all the functions of a run at
once.
-/
namespace LispMachine.Machine

open Run

/-! ## Call sites -/

theorem map_modify_of_eq {α β : Type} (g : α → β) (f : α → α) (h : ∀ a, g (f a) = g a) (xs : Array α)
    (i : Nat) : (xs.modify i f).map g = xs.map g := by
  apply Array.ext
  · simp
  · intro j h1 h2
    simp only [Array.getElem_map, Array.getElem_modify]
    split <;> simp [h]

/-- A change of caches alone keeps the code. -/
theorem code_modifyUnit (w : World) (unit : Nat) (f : LoadedUnit → LoadedUnit)
    (h : ∀ u, (f u).linked = u.linked) : ({ w with units := w.units.modify unit f } : World).code = w.code := by
  simp only [World.code, map_modify_of_eq LoadedUnit.linked f h]

theorem tame_modifyProtocolSite {f : ProtocolSite → ProtocolSite} (unit site : Nat)
    (h : ∀ c, (f c).protocol = c.protocol ∧ (f c).method = c.method) :
    Tame (modifyProtocolSite unit site f) := by
  refine tame_modify fun w => code_modifyUnit w unit _ fun u => ?_
  simp only [LoadedUnit.linked, LinkedCode.mk.injEq, true_and]
  exact map_modify_of_eq _ f (fun c => by simp [h c]) _ _

theorem tame_modifyKeywordSite {f : KeywordSite → KeywordSite} (unit site : Nat)
    (h : ∀ c, (f c).keyword = c.keyword) : Tame (modifyKeywordSite unit site f) := by
  refine tame_modify fun w => code_modifyUnit w unit _ fun u => ?_
  simp only [LoadedUnit.linked, LinkedCode.mk.injEq, true_and, and_true]
  exact map_modify_of_eq _ f h _ _

/-! ## Calls that are not run -/

theorem harmless_noImplementation (p : Protocol) (method : String) (target : Value) :
    (noImplementation p method target).Harmless := Failure.harmless_illegalArgument _

theorem tame_runDispatcher (id : Nat) (method : String) (args : List Value) :
    Tame (runDispatcher id method args) := by
  refine tame_bind tame_world fun w => ?_
  split
  · exact tame_pure _
  · dsimp only
    split
    · exact tame_pure _
    · exact tame_raise (by simp)
  · split
    · exact tame_pure _
    · exact tame_raise fun fault => by cases fault <;> decide
  · exact tame_raise fun fault => by cases fault <;> decide
  · exact tame_raise fun fault => by cases fault <;> decide

theorem tame_callProtocolMethod (p : Nat) (name : String) (args : List Value) :
    Tame (callProtocolMethod p name args) := by
  rw [callProtocolMethod]
  split
  · exact tame_raise (by simp)
  · refine tame_bind tame_world fun w => ?_
    dsimp only
    split
    · exact tame_runDispatcher _ _ _
    · exact tame_raise (harmless_noImplementation _ _ _)

/-- A collection or keyword in call position. -/
theorem tame_lookupCall (f : Value) (args : List Value) : Tame (match args with
    | [coll] => do return .value (lookupCall (← Run.world) f coll .nil)
    | [coll, otherwise] => do return .value (lookupCall (← Run.world) f coll otherwise)
    | _ => do Run.raise (.arity args.length ((← Run.world).render f)) : Run Answer) := by
  split
  · exact tame_bind tame_world fun _ => tame_pure _
  · exact tame_bind tame_world fun _ => tame_pure _
  · exact tame_bind tame_world fun _ => tame_raise (by simp)

theorem tame_invoke (f : Value) (args : List Value) : Tame (invoke f args) := by
  unfold invoke
  split
  · refine tame_bind tame_world fun w => ?_
    split
    · exact tame_pure _
    · exact tame_raise (by simp)
  · exact tame_bind (Core.tame_call _ _) fun _ => tame_pure _
  · exact tame_raise (Failure.Harmless.of_head (by simp [Failure.illegalState]))
  · exact tame_bind tame_world fun w => tame_bind (tame_ofExcept (Core.spared_varGet _ _)) fun _ => tame_pure _
  · exact tame_lookupCall _ args
  · exact tame_lookupCall _ args
  · exact tame_lookupCall _ args
  · split
    · exact tame_bind (tame_ofExcept (Coll.spared_nth _ _ _)) fun _ => tame_pure _
    · exact tame_raise (by simp)
    · exact tame_raise (by simp)
  · exact tame_callProtocolMethod _ _ _
  · exact tame_raise (by simp)

/-! ## Calls through a site -/

theorem tameAt_protocolInvoke {w : World} {unit site : Nat} (args : List Value)
    (h : site < (loadedUnit w unit).protocolSites.size) : TameAt (protocolInvoke unit site args) w := by
  refine tameAt_world_bind ?_
  rw [Array.getElem?_eq_getElem h]
  refine Tame.at ?_ w
  refine tame_bind (tame_modifyProtocolSite _ _ fun _ => ⟨rfl, rfl⟩) fun _ => ?_
  dsimp only
  split
  · exact tame_runDispatcher _ _ _
  · split
    · exact tame_raise (harmless_noImplementation _ _ _)
    · exact tame_bind (tame_modifyProtocolSite _ _ fun _ => ⟨rfl, rfl⟩) fun _ => tame_runDispatcher _ _ _

theorem keeps_protocolInvoke (unit site : Nat) (args : List Value) : Keeps (protocolInvoke unit site args) := by
  intro w
  by_cases h : site < (loadedUnit w unit).protocolSites.size
  · exact ⟨(tameAt_protocolInvoke args h).code, (tameAt_protocolInvoke args h).exceptions⟩
  · rw [protocolInvoke, world_bind, Array.getElem?_eq_none (by omega)]
    exact keeps_raise _ w

theorem tame_keywordDispatcher (k : Keyword) (target : Value) : Tame (keywordDispatcher k target) := by
  unfold keywordDispatcher
  split
  · split
    · refine tame_bind tame_world fun w => ?_
      split
      · exact tame_change fun _ => rfl
      · exact tame_pure _
    · exact tame_pure _
  · exact tame_pure _

/-- What a keyword finds once its dispatcher is known. -/
theorem tame_dispatchedField (target : Value) (k : Keyword) (d : Nat) : Tame (do
    let w ← Run.world
    match w.dispatchers.entries[d]?, target with
    | some (.field i), .inst obj _ _ => return (((w.fieldsOf obj)[i]?).getD Slot.empty).toValue
    | _, _ => return Coll.get w target (.keyword k) .nil : Run Value) := by
  refine tame_bind tame_world fun w => ?_
  split <;> exact tame_pure _

theorem tameAt_keywordInvoke {w : World} {unit site : Nat} (target : Value)
    (h : site < (loadedUnit w unit).keywordSites.size) : TameAt (keywordInvoke unit site target) w := by
  refine tameAt_world_bind ?_
  rw [Array.getElem?_eq_getElem h]
  refine Tame.at ?_ w
  refine tame_bind (tame_modifyKeywordSite _ _ fun _ => rfl) fun _ => ?_
  dsimp only
  split
  · exact tame_bind (tame_pure _) fun d => tame_dispatchedField target _ d
  · refine tame_bind (tame_keywordDispatcher _ _) fun d => ?_
    refine tame_bind (tame_modifyKeywordSite _ _ fun _ => rfl) fun _ => ?_
    exact tame_bind (tame_pure _) fun d => tame_dispatchedField target _ d

theorem keeps_keywordInvoke (unit site : Nat) (target : Value) : Keeps (keywordInvoke unit site target) := by
  intro w
  by_cases h : site < (loadedUnit w unit).keywordSites.size
  · exact ⟨(tameAt_keywordInvoke target h).code, (tameAt_keywordInvoke target h).exceptions⟩
  · rw [keywordInvoke, world_bind, Array.getElem?_eq_none (by omega)]
    exact keeps_raise _ w

/-! ## Reflection -/

theorem spared_toSlot (param : HostType) (v : Value) : Spared (toSlot param v) := by
  unfold toSlot
  split
  · exact Slot.spared_unbox _ _
  · exact spared_ok _

theorem tame_callMatching (candidates : List HostMember) (receiver : Option Value) (args : List Value)
    {otherwise : Failure} (h : otherwise.Harmless) : Tame (callMatching candidates receiver args otherwise) := by
  refine tame_bind tame_world fun w => ?_
  dsimp only
  split
  · exact tame_raise h
  · refine tame_bind (tame_ofExcept (spared_mapM (fun p : HostType × Value => spared_toSlot p.1 p.2) _)) fun slots => ?_
    exact tame_bind (Host.tame_call _ _) fun _ => tame_pure _

/-- A method of the host class of the target. -/
theorem tame_hostMethod (w : World) (target : Value) (name : String) (args : List Value) : Tame (do
    match w.classes.get? target.classId with
    | none => Run.raise (.illegalArgument ("No class for " ++ target.className))
    | some c =>
      return .value (← callMatching (w.classes.findMembers c .method name) (some target) args
        (.illegalArgument ("No matching method " ++ name ++ " found taking " ++
          toString args.length ++ " args for class " ++ target.className))) : Run Answer) := by
  split
  · exact tame_raise (by simp)
  · exact tame_bind (tame_callMatching _ _ _ (by simp)) fun _ => tame_pure _

theorem tame_invokeMethod (target : Value) (name : String) (args : List Value) :
    Tame (invokeMethod target name args) := by
  refine tame_bind tame_world fun w => ?_
  have host := tame_hostMethod w target name args
  dsimp only
  split
  · exact tame_raise (by simp)
  · split
    · exact tame_pure _
    · split
      · split
        · exact tame_pure _
        · exact host
      · exact host
  · exact host

theorem tame_invokeStatic (className name : String) (args : List Value) :
    Tame (invokeStatic className name args) := by
  refine tame_bind tame_world fun w => ?_
  split
  · exact tame_raise (by simp)
  · split
    · exact tame_bind (Host.tame_call _ _) fun _ => tame_pure _
    · exact tame_callMatching _ _ _ (by simp)

theorem tame_getField (target : Value) (name : String) : Tame (getField target name) := by
  refine tame_bind tame_world fun w => ?_
  dsimp only
  split
  · exact tame_pure _
  · split
    · exact tame_raise (by simp)
    · exact tame_invokeMethod _ _ _

theorem spared_fieldSlots (fields : List Capture) (args : List Value) : Spared (fieldSlots fields args) := by
  refine spared_mapM (fun p => ?_) _
  dsimp only
  split
  · exact Slot.spared_unbox _ _
  · exact spared_ok _

theorem tame_construct (type : ClassId) (args : List Value) : Tame (construct type args) := by
  refine tame_bind tame_world fun w => ?_
  split
  · exact tame_raise (by simp)
  · dsimp only
    split
    · split
      · exact tame_raise (by simp)
      · refine tame_bind (tame_ofExcept (spared_fieldSlots _ _)) fun slots => ?_
        exact tame_bind (tame_change fun _ => rfl) fun _ => tame_pure _
    · exact tame_callMatching _ _ _ (by simp)

/-! ## One instruction -/

theorem tame_setField (obj i : Nat) (s : Slot) : Tame (Run.modify fun w => w.setField obj i s) :=
  tame_modify fun _ => rfl

theorem tame_initField (i : Nat) (s : Slot) (target : Value) : Tame (initField i s target) := by
  unfold initField
  split
  · refine tame_bind tame_world fun w => ?_
    split
    · exact tame_setField _ _ _
    · exact tame_raise fun fault => by cases fault <;> decide
  · exact tame_raise fun fault => by cases fault <;> decide

theorem tame_setVar (id : Nat) (v : Value) : Tame (setVar id v) := by
  refine tame_bind tame_world fun w => ?_
  split
  · exact tame_bind (tame_modify fun _ => rfl) fun _ => tame_pure _
  · exact tame_raise (Failure.Harmless.of_head (by simp [Failure.illegalState]))

theorem tame_modifyVar (id : Nat) (f : Var → Var) : Tame (Run.modify fun w => w.modifyVar id f) :=
  tame_modify fun _ => rfl

theorem keeps_world_bind {α : Type} {f : World → Run α} (h : ∀ w, Keeps (f w)) : Keeps (Run.world >>= f) :=
  keeps_bind tame_world.keeps h

theorem keeps_ofExcept_bind {α β : Type} (x : Except Failure α) {f : α → Run β} (h : ∀ a, Keeps (f a)) :
    Keeps (Run.ofExcept x >>= f) := keeps_bind (keeps_ofExcept x) h

theorem keeps_varDef (f : Frame) (var : Nat) (init : Bool) (info : Option Nat) :
    Keeps (stepData f (.varDef var init info)) := by
  refine keeps_world_bind fun w => keeps_ofExcept_bind _ fun id => ?_
  have set_root : ∀ (f : Frame) (v : Value), Keeps (do
      Run.modify fun w => w.modifyVar id fun x => { x with root := some v }
      return f.pushValue (w.varValue id) : Run Frame) := fun _ _ =>
    keeps_bind (tame_modifyVar _ _).keeps fun _ => keeps_pure _
  cases info with
  | none =>
    cases init with
    | true => exact keeps_ofExcept_bind _ fun _ => set_root _ _
    | false => exact keeps_pure _
  | some i =>
    refine keeps_ofExcept_bind _ fun m => keeps_bind (tame_modifyVar _ _).keeps fun _ => ?_
    cases init with
    | true => exact keeps_ofExcept_bind _ fun _ => set_root _ _
    | false => exact keeps_pure _

theorem keeps_stepData (f : Frame) (i : Instr) : Keeps (stepData f i) := by
  cases i with
  | const i => exact keeps_world_bind fun _ => keeps_ofExcept_bind _ fun _ => keeps_pure _
  | loadField i => exact keeps_ofExcept_bind _ fun _ => keeps_world_bind fun _ => keeps_pure _
  | loadFieldClear i =>
    exact keeps_ofExcept_bind _ fun _ => keeps_world_bind fun _ =>
      keeps_bind (tame_setField _ _ _).keeps fun _ => keeps_pure _
  | storeField i =>
    exact keeps_ofExcept_bind _ fun _ => keeps_ofExcept_bind _ fun _ =>
      keeps_bind (tame_setField _ _ _).keeps fun _ => keeps_pure _
  | initField i =>
    exact keeps_ofExcept_bind _ fun _ => keeps_ofExcept_bind _ fun _ =>
      keeps_bind (tame_initField _ _ _).keeps fun _ => keeps_pure _
  | varGet i => exact keeps_world_bind fun _ => keeps_ofExcept_bind _ fun _ => keeps_pure _
  | varSet i =>
    exact keeps_ofExcept_bind _ fun _ => keeps_world_bind fun _ => keeps_ofExcept_bind _ fun _ =>
      keeps_bind (tame_setVar _ _).keeps fun _ => keeps_pure _
  | varDef var init info => exact keeps_varDef f var init info
  | getStatic i =>
    exact keeps_world_bind fun _ => keeps_ofExcept_bind _ fun _ =>
      keeps_bind (Host.tame_call _ _).keeps fun _ => keeps_pure _
  | getField type index =>
    refine keeps_world_bind fun w => keeps_ofExcept_bind _ fun _ => keeps_ofExcept_bind _ fun _ => ?_
    dsimp only
    split
    · split
      · exact keeps_pure _
      · exact keeps_raise _
    · exact keeps_raise _
  | newFn unit captured =>
    refine keeps_world_bind fun w => ?_
    split
    · exact keeps_raise _
    · exact keeps_ofExcept_bind _ fun _ => keeps_bind (tame_change fun _ => rfl).keeps fun _ =>
        keeps_world_bind fun _ => keeps_pure _
  | keywordInvoke site =>
    exact keeps_ofExcept_bind _ fun _ => keeps_bind (keeps_keywordInvoke _ _ _) fun _ => keeps_pure _
  | instanceOf i =>
    exact keeps_world_bind fun _ => keeps_ofExcept_bind _ fun _ => keeps_ofExcept_bind _ fun _ => keeps_pure _
  | makeVector n => exact keeps_ofExcept_bind _ fun _ => keeps_bind (tame_newVector _).keeps fun _ => keeps_pure _
  | makeMap n => exact keeps_ofExcept_bind _ fun _ => keeps_bind (tame_newMap _).keeps fun _ => keeps_pure _
  | makeSet n => exact keeps_ofExcept_bind _ fun _ => keeps_bind (tame_newSet _).keeps fun _ => keeps_pure _
  | _ => exact keeps_pure _

theorem keeps_constructAt (f : Frame) (type argc : Nat) : Keeps (do
    let (id, _) ← Run.ofExcept (f.classAt (← Run.world) type)
    let (args, f) ← Run.ofExcept (f.popValues argc)
    return f.pushValue (← construct id args) : Run Frame) :=
  keeps_world_bind fun _ => keeps_ofExcept_bind _ fun _ => keeps_ofExcept_bind _ fun _ =>
    keeps_bind (tame_construct _ _).keeps fun _ => keeps_pure _

theorem keeps_stepHost (f : Frame) (i : Instr) : Keeps (stepHost f i) := by
  cases i with
  | invokeStatic member argc =>
    exact keeps_world_bind fun _ => keeps_ofExcept_bind _ fun _ => keeps_ofExcept_bind _ fun _ =>
      keeps_bind (Host.tame_call _ _).keeps fun _ => keeps_pure _
  | invokeVirtual member argc =>
    refine keeps_world_bind fun _ => keeps_ofExcept_bind _ fun _ => keeps_ofExcept_bind _ fun _ => ?_
    dsimp only
    split
    · exact keeps_raise _
    · exact keeps_bind (Host.tame_call _ _).keeps fun _ => keeps_pure _
  | invokeStaticReflective type member argc =>
    exact keeps_world_bind fun _ => keeps_ofExcept_bind _ fun _ => keeps_ofExcept_bind _ fun _ =>
      keeps_ofExcept_bind _ fun _ => keeps_bind (tame_invokeStatic _ _ _).keeps fun _ => keeps_pure _
  | new ctor argc =>
    exact keeps_world_bind fun _ => keeps_ofExcept_bind _ fun _ => keeps_ofExcept_bind _ fun _ =>
      keeps_bind (Host.tame_call _ _).keeps fun _ => keeps_pure _
  | newReflective type argc => exact keeps_constructAt f type argc
  | newInstance type argc => exact keeps_constructAt f type argc
  | _ => exact keeps_pure _

theorem keeps_step (f : Frame) (i : Instr) : Keeps (step f i) := by
  have data : Keeps (do return .next (← stepData f i) : Run Action) :=
    keeps_bind (keeps_stepData f i) fun _ => keeps_pure _
  have host : Keeps (do return .next (← stepHost f i) : Run Action) :=
    keeps_bind (keeps_stepHost f i) fun _ => keeps_pure _
  cases i with
  | invoke argc =>
    exact keeps_ofExcept_bind _ fun _ => keeps_ofExcept_bind _ fun _ =>
      keeps_bind (tame_invoke _ _).keeps fun _ => keeps_pure _
  | invokeReflective member argc =>
    exact keeps_world_bind fun _ => keeps_ofExcept_bind _ fun _ => keeps_ofExcept_bind _ fun _ =>
      keeps_ofExcept_bind _ fun _ => keeps_bind (tame_invokeMethod _ _ _).keeps fun _ => keeps_pure _
  | getFieldReflective member =>
    exact keeps_world_bind fun _ => keeps_ofExcept_bind _ fun _ => keeps_ofExcept_bind _ fun _ =>
      keeps_bind (tame_getField _ _).keeps fun _ => keeps_pure _
  | protocolInvoke site argc =>
    exact keeps_ofExcept_bind _ fun _ => keeps_bind (keeps_protocolInvoke _ _ _) fun _ => keeps_pure _
  | throw =>
    refine keeps_ofExcept_bind _ fun _ => ?_
    dsimp only
    split
    · rename_i hv
      exact keeps_throw (by rw [hv]; trivial)
    · exact keeps_raise _
  | «return» => exact keeps_ofExcept_bind _ fun _ => keeps_pure _
  | const | loadField | loadFieldClear | storeField | initField | varGet | varSet | varDef | getStatic | getField
  | newFn | keywordInvoke | instanceOf | makeVector | makeMap | makeSet => exact data
  | invokeStatic | invokeVirtual | invokeStaticReflective | new | newReflective | newInstance => exact host
  | _ => exact keeps_ofExcept_bind _ fun _ => keeps_pure _

theorem keeps_enter (unit : Nat) (m : Method) (this : Value) (args : List Value) :
    Keeps (enter unit m this args) := by
  refine keeps_ofExcept_bind _ fun params => ?_
  dsimp only
  split
  · split
    · exact keeps_bind (keeps_pure _) fun _ => keeps_pure _
    · exact keeps_bind (keeps_bind (tame_newList _).keeps fun _ => keeps_pure _) fun _ => keeps_pure _
  · exact keeps_bind (keeps_pure _) fun _ => keeps_pure _

/-! ## Whole runs -/

/-! The functions of a run, as runs in sequence. -/

theorem answer_enter (n depth unit : Nat) (m : Method) (this : Value) (args : List Value) (w : World) :
    answer (n + 1) depth (.enter unit m this args) w =
      if !m.accepts args.length then Run.raise (.arity args.length (loadedUnit w unit).unit.name) w
      else if depth ≥ w.depthLimit then Run.raise (stackOverflow depth) w
      else (enter unit m this args >>= execute n (depth + 1)) w := by
  simp only [answer, Bind.bind, Run.bind]
  congr 2
  rcases enter unit m this args w with ⟨_ | _ | _, w'⟩ <;> rfl

theorem answer_map (n depth : Nat) (f : Value) (rows : List (List Value)) :
    answer (n + 1) depth (.map f rows) = mapCalls n depth f [] rows >>= Run.newList := by
  funext w
  simp only [answer, Bind.bind, Run.bind]
  rcases mapCalls n depth f [] rows w with ⟨_ | _ | _, w'⟩ <;> rfl

theorem answer_filter (n depth : Nat) (f : Value) (items : List Value) :
    answer (n + 1) depth (.filter f items) = filterCalls n depth f [] items >>= Run.newList := by
  funext w
  simp only [answer, Bind.bind, Run.bind]
  rcases filterCalls n depth f [] items w with ⟨_ | _ | _, w'⟩ <;> rfl

theorem invokeValue_succ (n depth : Nat) (f : Value) (args : List Value) :
    invokeValue (n + 1) depth f args = invoke f args >>= answer n depth := by
  funext w
  simp only [invokeValue, Bind.bind, Run.bind]
  rcases invoke f args w with ⟨_ | _ | _, w'⟩ <;> rfl

theorem mapCalls_cons (n depth : Nat) (f : Value) (done row : List Value) (rows : List (List Value)) :
    mapCalls (n + 1) depth f done (row :: rows) =
      invokeValue n depth f row >>= fun v => mapCalls n depth f (v :: done) rows := by
  funext w
  simp only [mapCalls, Bind.bind, Run.bind]
  rcases invokeValue n depth f row w with ⟨_ | _ | _, w'⟩ <;> rfl

theorem filterCalls_cons (n depth : Nat) (f : Value) (kept : List Value) (item : Value) (items : List Value) :
    filterCalls (n + 1) depth f kept (item :: items) = invokeValue n depth f [item] >>= fun v =>
      filterCalls n depth f (if v.isTruthy then item :: kept else kept) items := by
  funext w
  simp only [filterCalls, Bind.bind, Run.bind]
  rcases invokeValue n depth f [item] w with ⟨_ | _ | _, w'⟩ <;> rfl

theorem reduceCalls_cons (n depth : Nat) (f acc item : Value) (items : List Value) :
    reduceCalls (n + 1) depth f acc (item :: items) =
      invokeValue n depth f [acc, item] >>= fun v => reduceCalls n depth f v items := by
  funext w
  simp only [reduceCalls, Bind.bind, Run.bind]
  rcases invokeValue n depth f [acc, item] w with ⟨_ | _ | _, w'⟩ <;> rfl

/-- Whatever is run with this allowance keeps the code. -/
structure KeepsWithin (n : Nat) : Prop where
  execute : ∀ depth f, Keeps (execute n depth f)
  resume : ∀ depth f t, t.IsException → Keeps (resume n depth f t)
  answer : ∀ depth a, Keeps (answer n depth a)
  invokeValue : ∀ depth f args, Keeps (invokeValue n depth f args)
  mapCalls : ∀ depth f done rows, Keeps (mapCalls n depth f done rows)
  filterCalls : ∀ depth f kept items, Keeps (filterCalls n depth f kept items)
  reduceCalls : ∀ depth f acc items, Keeps (reduceCalls n depth f acc items)

theorem KeepsWithin.zero : KeepsWithin 0 := by
  constructor <;> intros <;> intro w <;> refine ⟨?_, fun t h => ?_⟩ <;> simp only [Machine.execute, Machine.resume,
    Machine.answer, Machine.invokeValue, Machine.mapCalls, Machine.filterCalls, Machine.reduceCalls] at * <;> cases h

theorem KeepsWithin.resume_succ {n : Nat} (ih : KeepsWithin n) (depth : Nat) (f : Frame) {t : Value} (ht : t.IsException) :
    Keeps (Machine.resume (n + 1) depth f t) := by
  intro w
  simp only [Machine.resume]
  split
  · exact ih.execute _ _ _
  · exact ⟨rfl, fun _ h => by cases h; exact ht⟩

theorem KeepsWithin.execute_succ {n : Nat} (ih : KeepsWithin n) (depth : Nat) (f : Frame) :
    Keeps (Machine.execute (n + 1) depth f) := by
  intro w
  simp only [Machine.execute]
  split
  · exact keeps_raise _ w
  · rename_i i _
    have hs := keeps_step { f with pc := f.pc + 1 } i w
    split <;> rename_i he <;> rw [he] at hs
    · exact (ih.execute _ _ _).after hs.code
    · exact ⟨hs.code, fun _ h => by cases h⟩
    · rename_i g a w'
      have ha := ih.answer depth a w'
      split <;> rename_i he' <;> rw [he'] at ha
      · exact (ih.execute _ _ _).after (ha.code.trans hs.code)
      · exact (ih.resume _ _ _ (ha.exceptions _ rfl) _).after (ha.code.trans hs.code)
      · exact ⟨ha.code.trans hs.code, fun _ h => by cases h⟩
    · exact (ih.resume _ _ _ (hs.exceptions _ rfl) _).after hs.code
    · exact ⟨hs.code, fun _ h => by cases h⟩

theorem KeepsWithin.answer_succ {n : Nat} (ih : KeepsWithin n) (depth : Nat) (a : Answer) :
    Keeps (Machine.answer (n + 1) depth a) := by
  cases a with
  | value v =>
    intro w
    simp only [Machine.answer]
    exact keeps_pure v w
  | enter unit m this args =>
    intro w
    rw [answer_enter]
    split
    · exact keeps_raise _ w
    · split
      · exact keeps_raise _ w
      · exact keeps_bind (keeps_enter unit m this args) (fun f => ih.execute _ f) w
  | again f args =>
    intro w
    simp only [Machine.answer]
    exact ih.invokeValue _ _ _ w
  | map f rows =>
    rw [answer_map]
    exact keeps_bind (ih.mapCalls _ _ _ _) fun vs => (tame_newList vs).keeps
  | filter f items =>
    rw [answer_filter]
    exact keeps_bind (ih.filterCalls _ _ _ _) fun vs => (tame_newList vs).keeps
  | reduce f init items =>
    intro w
    simp only [Machine.answer]
    exact ih.reduceCalls _ _ _ _ w

theorem KeepsWithin.invokeValue_succ {n : Nat} (ih : KeepsWithin n) (depth : Nat) (f : Value) (args : List Value) :
    Keeps (Machine.invokeValue (n + 1) depth f args) := by
  rw [Machine.invokeValue_succ]
  exact keeps_bind (tame_invoke f args).keeps (ih.answer depth)

theorem KeepsWithin.mapCalls_succ {n : Nat} (ih : KeepsWithin n) (depth : Nat) (f : Value) (done : List Value) :
    ∀ rows : List (List Value), Keeps (Machine.mapCalls (n + 1) depth f done rows)
  | [] => fun w => by
    simp only [Machine.mapCalls]
    exact keeps_pure _ w
  | row :: rows => by
    rw [mapCalls_cons]
    exact keeps_bind (ih.invokeValue _ _ _) fun _ => ih.mapCalls _ _ _ _

theorem KeepsWithin.filterCalls_succ {n : Nat} (ih : KeepsWithin n) (depth : Nat) (f : Value) (kept : List Value) :
    ∀ items : List Value, Keeps (Machine.filterCalls (n + 1) depth f kept items)
  | [] => fun w => by
    simp only [Machine.filterCalls]
    exact keeps_pure _ w
  | item :: items => by
    rw [filterCalls_cons]
    exact keeps_bind (ih.invokeValue _ _ _) fun _ => ih.filterCalls _ _ _ _

theorem KeepsWithin.reduceCalls_succ {n : Nat} (ih : KeepsWithin n) (depth : Nat) (f acc : Value) :
    ∀ items : List Value, Keeps (Machine.reduceCalls (n + 1) depth f acc items)
  | [] => fun w => by
    simp only [Machine.reduceCalls]
    exact keeps_pure _ w
  | item :: items => by
    rw [reduceCalls_cons]
    exact keeps_bind (ih.invokeValue _ _ _) fun _ => ih.reduceCalls _ _ _ _

/-- **A run keeps the code**, with any allowance. -/
theorem keepsWithin : ∀ n, KeepsWithin n
  | 0 => .zero
  | n + 1 =>
    have ih := keepsWithin n
    { execute := ih.execute_succ, resume := fun depth f _ ht => ih.resume_succ depth f ht, answer := ih.answer_succ
      invokeValue := ih.invokeValue_succ, mapCalls := ih.mapCalls_succ, filterCalls := ih.filterCalls_succ
      reduceCalls := ih.reduceCalls_succ }

end LispMachine.Machine
