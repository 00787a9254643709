import LispMachine.Proofs.Analyze.Recurs
import LispMachine.Proofs.Expr.Search
/-!
# Choices without a default

A `case` without a default ends as if `(throw (new IllegalArgumentException (kiln.core/str "No matching clause: " temp)))` were
written there, where `temp` is the hidden local of the dispatch value.  If the names in this form mean what they mean in the
library (`World.Announces`), it is analyzed into one expression (`Expr.missed`), and evaluating it throws an exception whose
message ends with the text of what the local holds (`meaning_missed`).

The local holds the dispatch value wherever there is a clause, since the value is put there before it is compared with anything
(`case_misses`).  Without clauses nothing puts it there, and the message ends with the text of whatever the slot held before,
which is nothing in a new activation (`case_misses_bare`).
-/
namespace LispMachine

open LispMachine.Emit LispMachine.Expr LispMachine.Analyze

/-! ## The form of a miss -/

/-- What a choice without a default says before the value. -/
def missText : String := "No matching clause: "

/-- The function that makes the message. -/
def textSymbol : Symbol := Symbol.qualified coreNs "str"

/-- Throws an exception whose message is the text and the value of the local. -/
def Expr.missed (text : VarRef) (temp : LocalRef) (ctor : HostRef) (line : Nat) : Expr :=
  .throw (.construct ctor.className (some ctor) false [.invoke (.var text) [.const (.str missText), .local temp] line false] line)

/-- The names that a choice without a default relies on are those of the library: a function that is called like any other,
and a class of the host with one constructor that takes one argument. -/
structure World.Announces (w : World) (id : Nat) (k : Class) (m : HostMember) : Prop where
  text : w.resolve? textSymbol = some id
  name : (w.var id).name = textSymbol
  function : (w.var id).isMacro = false
  called : (w.var id).inline = none
  plain : (w.var id).info.lookup "protocol" = none
  type : w.classes.lookup? "IllegalArgumentException" = some k
  host : k.declared = none
  ctor : (w.classes.findMembers k .constructor "new").filter (fun m => m.params.length == 1) = [m]
  boxed : m.params.map HostType.prim? = [none]

theorem World.Announces.of_gensym {w : World} {id : Nat} {k : Class} {m : HostMember} (h : w.Announces id k m) (g : Nat) :
    { w with gensym := g }.Announces id k m :=
  ⟨h.text, h.name, h.function, h.called, h.plain, h.type, h.host, h.ctor, h.boxed⟩

namespace Analyze

open Analysis

variable {n : Nat} {demand : Demand} {c c' : Context} {id : Nat} {k : Class} {m : HostMember} {name : Symbol} {temp : Nat}

/-- A list without a place of its own is analyzed where it stands. -/
theorem formWithin_ofItems {head : Form} {args : List Form} {e : Expr}
    (h : list (formWithin n) demand (.ofItems (head :: args)) head args c = (.ok e, c')) :
    formWithin (n + 1) demand (.ofItems (head :: args)) c = (.ok e, { c' with scope := c.scope }) := by
  have hl : located (list (formWithin n) demand (.ofItems (head :: args)) head args) c = (.ok e, c') := by
    unfold located
    rw [h]
  have hn : formWithin (n + 1) demand (.ofItems (head :: args)) c =
      nested (located (list (formWithin n) demand (.ofItems (head :: args)) head args)) c := rfl
  rw [hn]
  unfold nested
  rw [hl]

theorem findNs?_of_resolve? {w : World} (h : w.resolve? textSymbol = some id) : (w.findNs? coreNs).isSome = true := by
  have h : (w.findNs? coreNs).bind (fun ns => ns.vars.lookup "str") = some id := h
  cases hn : w.findNs? coreNs with
  | none =>
    rw [hn] at h
    cases h
  | some ns => rfl

theorem lookupLocal?_textSymbol (c : Context) : c.lookupLocal? textSymbol = none := rfl

theorem symbol_text (h : c.world.Announces id k m) : symbol textSymbol none c = (.ok (.var (varRef c.world id none)), c) := by
  unfold symbol
  have howner : symbol.staticOwner? textSymbol c.world = none := by
    show (if (c.world.findNs? coreNs).isSome then none else _) = none
    rw [if_pos (findNs?_of_resolve? h.text)]
  rw [bind_lookupLocal?, lookupLocal?_textSymbol]
  dsimp only
  rw [bind_world, howner]
  dsimp only
  rw [h.text]
  dsimp only
  rw [h.function]
  rfl

theorem symbol_local (h : c.lookupLocal? name = some temp) :
    symbol name none c = (.ok (.local (c.referenceLocal temp none).1), (c.referenceLocal temp none).2) := by
  unfold symbol
  rw [bind_lookupLocal?, h]
  rfl

theorem once_text (h : c.world.Announces id k m) (args : List Form) :
    Expand.once (.ofItems (.symbol textSymbol none :: args)) c = (.ok none, c) := by
  unfold Expand.once Form.ofItems
  have hsugar : Expand.sugar textSymbol args c = (.ok none, c) := by
    show (if ((c.world.findNs? coreNs).isNone && (c.world.classes.lookup? coreNs).isSome) = true then _ else _ : Analysis (Option Form)) c = _
    rw [if_neg]
    · rfl
    · obtain ⟨ns, hns⟩ := Option.isSome_iff_exists.1 (findNs?_of_resolve? h.text)
      simp [hns]
  dsimp only
  rw [bind_lookupLocal?, lookupLocal?_textSymbol, if_neg (by decide), bind_world, h.text, Option.filter_some, h.function]
  exact bind_of_ok hsugar

theorem forList_cons_of_ok {α β : Type} {f : α → Analysis β} {a : α} {as : List α} {b : β} {bs : List β} {c₁ c₂ : Context}
    (h : f a c = (.ok b, c₁)) (hs : forList f as c₁ = (.ok bs, c₂)) : forList f (a :: as) c = (.ok (b :: bs), c₂) := by
  rw [forList, bind_of_ok h]
  exact bind_of_ok hs

/-- The arguments of the message. -/
theorem operands_text (h : c.lookupLocal? name = some temp) :
    operands (formWithin (n + 1)) .expression [.str missText, .symbol name none] c =
      (.ok [.const (.str missText), .local (c.referenceLocal temp none).1], (c.referenceLocal temp none).2) := by
  have htext : formWithin (n + 1) (Demand.operand .expression) (.str missText) c = (.ok (.const (.str missText)), c) := rfl
  have hlocal : formWithin (n + 1) (Demand.operand .expression) (.symbol name none) c =
      (.ok (.local (c.referenceLocal temp none).1), (c.referenceLocal temp none).2) := symbol_local h
  exact forList_cons_of_ok htext (forList_cons_of_ok hlocal rfl)

/-- The call that makes the message. -/
theorem invoke_text (h : c.world.Announces id k m) (hl : c.lookupLocal? name = some temp) :
    invoke (formWithin (n + 1)) .expression (.symbol textSymbol none) [.str missText, .symbol name none] c =
      (.ok (.invoke (.var (varRef c.world id none)) [.const (.str missText), .local (c.referenceLocal temp none).1] c.scope.line false),
        (c.referenceLocal temp none).2) := by
  have hvar : varCall? (formWithin (n + 1)) .expression textSymbol [.str missText, .symbol name none] c.scope.line c = (.ok none, c) := by
    unfold varCall?
    rw [bind_world, h.text, Option.filter_some, h.function]
    simp only [Bool.not_false, if_true, h.called, h.plain, Option.filter_none, Option.isSome_none, Bool.false_and, Bool.false_eq_true, if_false]
    rfl
  have hnamed : namedCall? (formWithin (n + 1)) .expression textSymbol [.str missText, .symbol name none] c.scope.line c = (.ok none, c) := by
    unfold namedCall?
    rw [bind_lookupLocal?, lookupLocal?_textSymbol, if_neg (by decide), bind_of_ok hvar]
    rfl
  unfold invoke
  rw [bind_scope]
  dsimp only
  rw [bind_of_ok hnamed]
  unfold plainCall
  dsimp only
  have hhead : formWithin (n + 1) (Demand.operand .expression) (.symbol textSymbol none) c = (.ok (.var (varRef c.world id none)), c) :=
    symbol_text h
  rw [bind_of_ok hhead, bind_of_ok (operands_text hl)]
  rfl

/-- The form of the message. -/
def messageForm (name : Symbol) : Form := .ofItems [.symbol textSymbol none, .str missText, .symbol name none]

theorem exists_message (h : c.world.Announces id k m) (hl : c.lookupLocal? name = some temp) :
    ∃ c', formWithin (n + 2) .expression (messageForm name) c = (.ok (.invoke (.var (varRef c.world id none))
      [.const (.str missText), .local (c.referenceLocal temp none).1] c.scope.line false), c') ∧ c'.world = c.world ∧ c'.scope = c.scope := by
  have hlist : list (formWithin (n + 1)) .expression (messageForm name) (.symbol textSymbol none) [.str missText, .symbol name none] c =
      (.ok (.invoke (.var (varRef c.world id none)) [.const (.str missText), .local (c.referenceLocal temp none).1] c.scope.line false),
        (c.referenceLocal temp none).2) := by
    have honce : Expand.once (messageForm name) c = (.ok none, c) := once_text h _
    unfold list
    rw [bind_of_ok honce]
    exact invoke_text h hl
  exact ⟨_, formWithin_ofItems hlist, c.world_referenceLocal temp none, rfl⟩

/-- The constructor with one parameter is found. -/
theorem resolveMember_of_announces (h : c.world.Announces id k m) (arg : Expr) (fault : CompileFault) :
    resolveMember k .constructor "new" [arg] fault c = (.ok (some (hostRef k.name m)), c) := by
  have hfits : (c.world.classes.findMembers k .constructor "new").any (fun m => m.params.length == [arg].length) = true := by
    obtain ⟨hmem, hparams⟩ := List.mem_filter.1 (h.ctor ▸ List.mem_singleton_self m)
    exact List.any_eq_true.2 ⟨m, hmem, hparams⟩
  have hselect : selectOverload c.world.classes (c.world.classes.findMembers k .constructor "new") [arg] "new" = .ok (some m) := by
    have hctor : (c.world.classes.findMembers k .constructor "new").filter (fun m => m.params.length == [arg].length) = [m] := h.ctor
    unfold selectOverload
    rw [hctor]
  unfold resolveMember
  rw [bind_world, if_pos hfits, hselect]
  rfl

/-- The form of the exception. -/
def exceptionForm (name : Symbol) : Form := .ofItems [Form.sym "new", Form.sym "IllegalArgumentException", messageForm name]

theorem exists_exception (h : c.world.Announces id k m) (hl : c.lookupLocal? name = some temp) :
    ∃ c', formWithin (n + 3) .expression (exceptionForm name) c = (.ok (.construct k.name (some (hostRef k.name m)) false
      [.invoke (.var (varRef c.world id none)) [.const (.str missText), .local (c.referenceLocal temp none).1] c.scope.line false] c.scope.line), c') := by
  obtain ⟨c₁, hmessage, hworld, hscope⟩ := exists_message (n := n) h hl
  have hargs : operands (formWithin (n + 2)) .expression [messageForm name] c = (.ok _, c₁) := forList_cons_of_ok hmessage rfl
  have hlist : list (formWithin (n + 2)) .expression (exceptionForm name) (Form.sym "new") [Form.sym "IllegalArgumentException", messageForm name] c =
      (.ok (.construct k.name (some (hostRef k.name m)) false [.invoke (.var (varRef c.world id none))
        [.const (.str missText), .local (c.referenceLocal temp none).1] c.scope.line false] c.scope.line), c₁) := by
    have hnew : (Form.sym "new").symbol?.bind SpecialForm.ofSymbol? = some .new := by decide
    have hsymbol : (Symbol.parse "IllegalArgumentException").name = "IllegalArgumentException" := by decide
    refine (congrFun (list_special _ _ hnew _ _) c).trans ?_
    show new (formWithin (n + 2)) .expression [Form.sym "new", Form.sym "IllegalArgumentException", messageForm name] c = _
    unfold new Form.sym
    dsimp only
    rw [bind_world, hsymbol, h.type]
    dsimp only
    rw [bind_scope, bind_of_ok hargs, h.host]
    dsimp only
    rw [bind_of_ok (resolveMember_of_announces (hworld ▸ h) _ _)]
    rfl
  exact ⟨_, formWithin_ofItems hlist⟩

/-- **A choice without a default throws an exception with the value in its message.** -/
theorem exists_caseDefault (h : c.world.Announces id k m) (hl : c.lookupLocal? name = some temp) (hd : demand ≠ .eval) :
    ∃ r c', r.binding = temp ∧ caseDefault (formWithin (n + 4)) demand none name c =
      (.ok (missed (varRef c.world id none) r (hostRef k.name m) c.scope.line), c') := by
  obtain ⟨c₁, hexception⟩ := exists_exception (n := n) h hl
  have hlist : list (formWithin (n + 3)) demand (.ofItems [Form.sym "throw", exceptionForm name]) (Form.sym "throw") [exceptionForm name] c =
      (.ok (missed (varRef c.world id none) (c.referenceLocal temp none).1 (hostRef k.name m) c.scope.line), c₁) := by
    have hthrow : (Form.sym "throw").symbol?.bind SpecialForm.ofSymbol? = some .throw := by decide
    refine (congrFun (list_special _ _ hthrow _ _) c).trans ?_
    show throw (formWithin (n + 3)) demand _ [Form.sym "throw", exceptionForm name] c = _
    unfold throw
    dsimp only
    rw [if_neg (by simpa using hd), bind_of_ok hexception]
    rfl
  exact ⟨_, _, c.binding_referenceLocal temp none, formWithin_ofItems hlist⟩

end Analyze

/-- What a miss asks of the tables is linked to the library: its function to the one that makes texts, and its constructor to the
one that takes a message. -/
structure Activation.Speaks (S : Activation) (k : Nat) (ns : List Need) (ctor : HostRef) (w : World) : Prop where
  text : ∀ i, ns[i]? = some (.constant (.var textSymbol)) → w.varGet (S.varId (k + i)) = .ok (.native (.fn .str))
  ctor : ∀ i, ns[i]? = some (.constant (.host ctor)) → ∃ h, S.member? (k + i) = some h ∧ h.op = .newExceptionWith ClassId.illegalArgument

namespace Activation

variable {S : Activation} {k n line : Nat} {ρ : Locals} {w : World} {r : LocalRef} {s : Slot} {text : VarRef} {ctor : HostRef} {h : HostMember}

theorem held_of_value {x : Run Flow} {kind : Option Prim} {w' : World} (h : x w = (.value (.value kind s), w')) :
    Run.held none x w = (.value (s.boxAs kind), w') := Run.bind_value h

theorem meaningArgs_cons {e : Expr} {es : List Expr} {prims : List (Option Prim)} {ss : List Slot} {w' w'' : World}
    (h : Run.held prims.head?.join (e.meaning S n k ρ) w = (.value s, w'))
    (hs : meaningArgs S n (k + e.needs.length) ρ prims.tail es w' = (.value ss, w'')) :
    meaningArgs S n k ρ prims (e :: es) w = (.value (s :: ss), w'') := by
  rw [meaningArgs]
  exact (Run.bind_value h).trans (Run.bind_value hs)

theorem meaningArgs_nil (prims : List (Option Prim)) : meaningArgs S n k ρ prims [] w = (.value [], w) := by
  rw [meaningArgs]
  rfl

/-- The function `str` joins the texts of its arguments. -/
theorem invoke_str (args : List Value) (w : World) :
    Machine.invoke (.native (.fn .str)) args w = (.value (.value (.str (String.join (args.map w.display)))), w) := rfl

/-- The text and the value make the message. -/
theorem held_message (htext : w.varGet (S.varId k) = .ok (.native (.fn .str))) (hmessage : S.value (k + 1) = .str missText)
    (hlocal : S.lookup ρ r w = (.value s, w)) :
    Run.held none ((Expr.invoke (.var text) [.const (.str missText), .local r] line false).meaning S n k ρ) w =
      (.value (.obj (.str (missText ++ w.display s.toValue))), w) := by
  have hf : Run.held none (meaning S n k ρ (.var text)) w = (.value (.obj (.native (.fn .str))), w) := by
    have hvar : meaning S n k ρ (.var text) w = (.value (.value none (.obj (.native (.fn .str)))), w) := by
      rw [meaning]
      exact Run.bind_value (show Run.ofExcept (w.varGet (S.varId k)) w = _ by rw [htext]; rfl)
    exact held_of_value hvar
  have hconst : Run.held none (meaning S n (k + 1) ρ (.const (.str missText))) w = (.value (.obj (.str missText)), w) := by
    rw [meaning, hmessage]
    rfl
  have hread : Run.held none (meaning S n (k + 1 + 1) ρ (.local r)) w = (.value (s.boxAs r.prim), w) := by
    have hlocal : meaning S n (k + 1 + 1) ρ (.local r) w = (.value (.value r.prim s), w) := by
      rw [meaning]
      exact Run.bind_value hlocal
    exact held_of_value hlocal
  have hargs : meaningArgs S n (k + 1) ρ [] [.const (.str missText), .local r] w = (.value [.obj (.str missText), s.boxAs r.prim], w) :=
    meaningArgs_cons hconst (meaningArgs_cons hread (meaningArgs_nil _))
  have hboxed : (s.boxAs r.prim).toValue = s.toValue := by cases r.prim <;> rfl
  have hjoin : String.join (([Slot.obj (.str missText), s.boxAs r.prim].map Slot.toValue).map w.display) = missText ++ w.display s.toValue := by
    simp only [List.map_cons, List.map_nil, hboxed, String.join, List.foldl_cons, List.foldl_nil, String.empty_append]
    rfl
  have hinvoke : meaning S n k ρ (.invoke (.var text) [.const (.str missText), .local r] line false) w =
      (.value (.value none (.obj (.str (missText ++ w.display s.toValue)))), w) := by
    rw [meaning]
    refine (Run.bind_value hf).trans ((Run.bind_value hargs).trans ((Run.bind_value (invoke_str _ w)).trans ?_))
    rw [hjoin]
    rfl
  exact held_of_value hinvoke

/-- **What a miss throws.** -/
theorem meaning_missed (htext : w.varGet (S.varId k) = .ok (.native (.fn .str))) (hmessage : S.value (k + 1) = .str missText)
    (hctor : S.member? (k + 2) = some h) (hop : h.op = .newExceptionWith ClassId.illegalArgument)
    (hparams : ctor.params.map HostType.prim? = [none]) (hlocal : S.lookup ρ r w = (.value s, w)) :
    (missed text r ctor line).meaning S n k ρ w = Run.raise (.illegalArgument (missText ++ w.display s.toValue)) w := by
  have hargs : meaningArgs S n k ρ (argPrims (ctorOf (some ctor) false)) [.invoke (.var text) [.const (.str missText), .local r] line false] w =
      (.value [.obj (.str (missText ++ w.display s.toValue))], w) := by
    refine meaningArgs_cons ?_ (meaningArgs_nil _)
    rw [show argPrims (ctorOf (some ctor) false) = [none] from hparams]
    exact held_message htext hmessage hlocal
  have hnew : meaning S n k ρ (.construct ctor.className (some ctor) false
      [.invoke (.var text) [.const (.str missText), .local r] line false] line) w =
      (.value (.value none (.obj (Run.exceptionOf w.nextId (.illegalArgument (missText ++ w.display s.toValue))))),
        { w with nextId := w.nextId + 1 }) := by
    rw [meaning]
    refine (Run.bind_value hargs).trans ?_
    have hlen : (needsAll [.invoke (.var text) [.const (.str missText), .local r] line false]).length = 2 := rfl
    simp only [ctorOf, Bool.false_eq_true, if_false, hlen, hctor, hop]
    rfl
  rw [missed, meaning]
  exact Run.bind_value (held_of_value hnew)

/-- A local of the method itself is in its own slot. -/
theorem lookup_own (hmethod : (S.context.binding r.binding).method = some S.frame) (hslot : (S.context.binding r.binding).slot ≠ 0) :
    S.lookup ρ r w = (.value (ρ r.binding), w) := by
  show (Outcome.value (if (S.context.binding r.binding).method == some S.frame then
    if (S.context.binding r.binding).slot == 0 then Slot.obj S.this else ρ r.binding else _), w) = _
  rw [hmethod, if_pos (beq_self_eq_true _), if_neg (by simpa using hslot)]

/-- A miss at the end of an expression says what its local holds. -/
theorem meaning_missed_after {before ns : List Need} (hneeds : ns = before ++ (missed text r ctor line).needs) (hname : text.name = textSymbol)
    (hparams : ctor.params.map HostType.prim? = [none]) (hshown : S.Shown k ns) (hspeaks : S.Speaks k ns ctor w)
    (hmethod : (S.context.binding r.binding).method = some S.frame) (hslot : (S.context.binding r.binding).slot ≠ 0) :
    (missed text r ctor line).meaning S n (k + before.length) ρ w =
      Run.raise (.illegalArgument (missText ++ w.display (ρ r.binding).toValue)) w := by
  have hat : ∀ i, ns[before.length + i]? = (missed text r ctor line).needs[i]? := fun i => by
    rw [hneeds, List.getElem?_append_right (Nat.le_add_right _ _), Nat.add_sub_cancel_left]
  have htext : w.varGet (S.varId (k + before.length)) = .ok (.native (.fn .str)) :=
    hspeaks.text before.length ((hat 0).trans (congrArg (fun s => some (Need.constant (.var s))) hname))
  have hmessage : S.value (k + before.length + 1) = .str missText := by
    rw [Nat.add_assoc]
    exact (hshown _ _ (hat 1)).value_str
  obtain ⟨h, hctor, hop⟩ := hspeaks.ctor (before.length + 2) (hat 2)
  rw [← Nat.add_assoc] at hctor
  exact meaning_missed htext hmessage hctor hop hparams (lookup_own hmethod hslot)

end Activation

/-! ## Choices -/

namespace Analyze

variable {n id temp : Nat} {demand : Demand} {c c' : Context} {k : Class} {m : HostMember} {form head value : Form} {rest : List Form}
  {clauses : List (Form × Form)} {e : Expr}

/-- What is left for a miss is the exception. -/
theorem FallsTo.eq_missed {w : World} (h : FallsTo (formWithin (n + 4)) demand value clauses none w temp e) (hd : demand ≠ .eval)
    (ha : w.Announces id k m)
    (hlasts : ∀ f ∈ value :: clauses.map (·.2), ∀ demand, Analysis.Outlasts (·.Announces id k m) (formWithin (n + 4) demand f)) :
    ∃ text r line, text.name = textSymbol ∧ r.binding = temp ∧ e = missed text r (hostRef k.name m) line := by
  obtain ⟨name, c₁, c₂, hdefault, hlookup, hworld⟩ := h
  have ha : c₁.world.Announces id k m := hworld (·.Announces id k m) (fun _ g hw => hw.of_gensym g) hlasts ha
  obtain ⟨r, c₃, hr, hrun⟩ := exists_caseDefault (n := n) ha hlookup hd
  rw [hrun] at hdefault
  exact ⟨_, r, _, ha.name, hr, (Result.ok.inj (congrArg Prod.fst hdefault)).symm⟩

/-- **A choice without a default throws on every miss, and the message ends with the dispatch value.**  The dispatch value is
evaluated first and once, and nothing else is. -/
theorem case_misses (hd : demand ≠ .eval) (h : case (formWithin (n + 4)) demand form (head :: value :: rest) c = (.ok e, c'))
    (hne : (caseClauses rest).1 ≠ []) (hnone : (caseClauses rest).2 = none)
    (hr : ∀ test clause, TestOf (caseClauses rest).1 test clause → test.Regular) (ha : c.world.Announces id k m)
    (hlasts : ∀ f ∈ value :: (caseClauses rest).1.map (·.2), ∀ demand,
      Analysis.Outlasts (·.Announces id k m) (formWithin (n + 4) demand f)) :
    ∃ dispatch temp, Makes (formWithin (n + 4)) demand.operand value dispatch ∧
      ∀ {S : Activation} {n j : Nat} {ρ : Locals} {w w' : World} {s : Slot},
      Run.held none (dispatch.meaning S n j ρ) w = (.value s, w') → s.toValue.Regular → S.Shown j e.needs →
      (∀ i, e.needs[i]? = some (.constant (.type numberClass)) → S.Counts (j + i) w' s.toValue) →
      S.Speaks j e.needs (hostRef k.name m) w' →
      (S.context.binding temp).method = some S.frame → (S.context.binding temp).slot ≠ 0 →
      (∀ test clause, TestOf (caseClauses rest).1 test clause → s.toValue.denotes test = false) →
      e.meaning S n j ρ w = Run.raise (.illegalArgument (missText ++ w'.display s.toValue)) w' := by
  obtain ⟨dispatch, temp, before, otherwise, hdispatch, hneeds, hfalls, hsearches⟩ := case_searches hd h hne hr
  rw [hnone] at hfalls
  obtain ⟨text, r, line, hname, rfl, rfl⟩ := hfalls.eq_missed hd ha hlasts
  refine ⟨dispatch, r.binding, hdispatch, fun {S n j ρ w w' s} hv hreg hshown hnum hspeaks hmethod hslot hmissed => ?_⟩
  rw [(hsearches hv hreg hshown hnum).2 hmissed, Activation.meaning_missed_after hneeds hname ha.boxed hshown hspeaks hmethod hslot,
    Locals.set, if_pos rfl]

/-- **A choice without any clause throws too, but the message ends with what the slot of the hidden local held before.** -/
theorem case_misses_bare (hd : demand ≠ .eval) (h : case (formWithin (n + 4)) demand form [head, value] c = (.ok e, c'))
    (ha : c.world.Announces id k m) (hlasts : ∀ demand, Analysis.Outlasts (·.Announces id k m) (formWithin (n + 4) demand value)) :
    ∃ dispatch temp, Makes (formWithin (n + 4)) demand.operand value dispatch ∧
      ∀ {S : Activation} {n j : Nat} {ρ : Locals} {w w' : World} {s : Slot},
      Run.held none (dispatch.meaning S n j ρ) w = (.value s, w') → S.Shown j e.needs → S.Speaks j e.needs (hostRef k.name m) w' →
      (S.context.binding temp).method = some S.frame → (S.context.binding temp).slot ≠ 0 →
      e.meaning S n j ρ w = Run.raise (.illegalArgument (missText ++ w'.display (ρ temp).toValue)) w' := by
  obtain ⟨constants, dispatch, temp, otherwise, hc, hdispatch, hfalls, ⟨-, rfl⟩ | ⟨hsome, -⟩⟩ := case_eq_ok hd h
  · obtain ⟨text, r, line, hname, rfl, rfl⟩ := hfalls.eq_missed hd ha fun f hf => by rwa [List.mem_singleton.1 hf]
    refine ⟨dispatch, r.binding, hdispatch, fun {S n j ρ w w' s} hv hshown hspeaks hmethod hslot => ?_⟩
    have hneeds : (Expr.seq [dispatch, missed text r (hostRef k.name m) line]).needs =
        dispatch.needs ++ (missed text r (hostRef k.name m) line).needs := by
      rw [needs, needsAll, needsAll, needsAll, List.append_nil]
    rw [meaning_seq, meaningSeq]
    · rw [Run.bind_value hv, meaningSeq]
      exact Activation.meaning_missed_after hneeds hname ha.boxed hshown hspeaks hmethod hslot
    · exact List.cons_ne_nil _ _
  · cases hc
    exact absurd rfl hsome

end Analyze

end LispMachine
