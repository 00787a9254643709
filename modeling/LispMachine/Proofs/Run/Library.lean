import LispMachine.Proofs.Run.Tame
import LispMachine.Core.Library
import LispMachine.Host.Call
/-!
# The libraries are tame

No core function and no host member changes loaded code or a class, and none of their failures can be
mistaken for a report of broken code.
-/
namespace LispMachine

open Run

/-! ## Numbers and slots -/

theorem Numbers.spared_ofValue (v : Value) : Spared (Numbers.Num.ofValue v) := by
  cases v <;> first | exact spared_ok _ | exact spared_error (by simp)

theorem Numbers.spared_fit (n : Int) : Spared (Numbers.fit n) := by
  unfold Numbers.fit
  split
  · exact spared_ok _
  · exact spared_error (by simp [Numbers.overflow])

theorem Numbers.spared_binary {long : Int64 → Int64 → Except Failure Int64} {double : Float → Float → Float}
    (h : ∀ x y, Spared (long x y)) (a b : Value) : Spared (Numbers.binary long double a b) := by
  refine spared_bind (spared_ofValue a) fun x => spared_bind (spared_ofValue b) fun y => ?_
  split
  · exact spared_bind (h _ _) fun _ => spared_ok _
  · exact spared_ok _

theorem Numbers.spared_quotLong (a b : Int64) : Spared (Numbers.quotLong a b) := by
  unfold Numbers.quotLong
  split
  · exact spared_error (by simp [Numbers.divideByZero])
  · exact spared_fit _

theorem Numbers.spared_remLong (a b : Int64) : Spared (Numbers.remLong a b) := by
  unfold Numbers.remLong
  split
  · exact spared_error (by simp [Numbers.divideByZero])
  · exact spared_ok _

theorem Numbers.spared_modLong (a b : Int64) : Spared (Numbers.modLong a b) := by
  unfold Numbers.modLong
  split
  · exact spared_error (by simp [Numbers.divideByZero])
  · exact spared_ok _

theorem Numbers.spared_divide (a b : Value) : Spared (Numbers.divide a b) := by
  refine spared_bind (spared_ofValue a) fun x => spared_bind (spared_ofValue b) fun y => ?_
  split
  · split
    · exact spared_error (by simp [Numbers.divideByZero])
    · split
      · exact spared_bind (spared_quotLong _ _) fun _ => spared_ok _
      · exact spared_ok _
  · exact spared_ok _

theorem Numbers.spared_add (a b : Value) : Spared (Numbers.add a b) :=
  spared_binary (fun _ _ => spared_fit _) a b

theorem Numbers.spared_minus (a b : Value) : Spared (Numbers.minus a b) :=
  spared_binary (fun _ _ => spared_fit _) a b

theorem Numbers.spared_multiply (a b : Value) : Spared (Numbers.multiply a b) :=
  spared_binary (fun _ _ => spared_fit _) a b

theorem Numbers.spared_quotient (a b : Value) : Spared (Numbers.quotient a b) :=
  spared_binary spared_quotLong a b

theorem Numbers.spared_remainder (a b : Value) : Spared (Numbers.remainder a b) :=
  spared_binary spared_remLong a b

theorem Numbers.spared_modulo (a b : Value) : Spared (Numbers.modulo a b) :=
  spared_binary spared_modLong a b

theorem Numbers.tame_unlessFatal {a b : Value} {x : Except Failure Value} (h : Spared x) : Tame (Numbers.unlessFatal a b x) := by
  unfold Numbers.unlessFatal
  split
  · exact tame_abort
  · exact tame_ofExcept h

theorem Numbers.spared_inc (a : Value) : Spared (Numbers.inc a) := spared_add a _

theorem Numbers.spared_dec (a : Value) : Spared (Numbers.dec a) := spared_minus a _

theorem Numbers.spared_order (a b : Value) : Spared (Numbers.order a b) := by
  refine spared_bind (spared_ofValue a) fun x => spared_bind (spared_ofValue b) fun y => ?_
  split <;> exact spared_ok _

theorem Numbers.spared_numEquiv (a b : Value) : Spared (Numbers.numEquiv a b) := by
  refine spared_bind (spared_ofValue a) fun x => spared_bind (spared_ofValue b) fun y => ?_
  split <;> exact spared_ok _

theorem Numbers.spared_lt (a b : Value) : Spared (Numbers.lt a b) := spared_map (spared_order a b)

theorem Numbers.spared_lte (a b : Value) : Spared (Numbers.lte a b) := spared_map (spared_order a b)

theorem Numbers.spared_gt (a b : Value) : Spared (Numbers.gt a b) := spared_map (spared_order a b)

theorem Numbers.spared_gte (a b : Value) : Spared (Numbers.gte a b) := spared_map (spared_order a b)

theorem Numbers.spared_isZero (a : Value) : Spared (Numbers.isZero a) :=
  spared_bind (spared_ofValue a) fun _ => spared_ok _

theorem Numbers.spared_isPos (a : Value) : Spared (Numbers.isPos a) :=
  spared_bind (spared_ofValue a) fun _ => spared_ok _

theorem Numbers.spared_isNeg (a : Value) : Spared (Numbers.isNeg a) :=
  spared_bind (spared_ofValue a) fun _ => spared_ok _

theorem Slot.spared_numberOf (p : Prim) (v : Value) : Spared (Slot.numberOf p v) := by
  unfold Slot.numberOf
  split
  · exact spared_ok _
  · exact spared_ok _
  · split
    · exact spared_ok _
    · exact spared_error (by simp)
  · exact spared_error (by simp)

theorem Slot.spared_unbox (v : Value) (p : Prim) : Spared (Slot.unbox v p) := by
  unfold Slot.unbox
  split
  · split
    · exact spared_ok _
    · exact spared_error (by simp)
  · refine spared_bind (spared_numberOf _ _) fun x => ?_
    split <;> exact spared_ok _
  · refine spared_bind (spared_numberOf _ _) fun x => ?_
    split <;> exact spared_ok _
  · exact spared_bind (spared_numberOf _ _) fun _ => spared_ok _
  · exact spared_bind (spared_numberOf _ _) fun _ => spared_ok _

theorem Slot.spared_convert (s : Slot) (p : Prim) : Spared (s.convert p) := by
  unfold Slot.convert
  split <;> first | exact spared_ok _ | exact spared_unbox _ _ | exact spared_error (by simp)

/-! ## Collections -/

namespace Coll

theorem spared_count (v : Value) : Spared (count v) := by
  unfold count
  split <;> first | exact spared_ok _ | exact spared_error (by simp)

theorem spared_pick (i : Int64) (otherwise found : Option Value) : Spared (match found.or otherwise with
    | some v => .ok v
    | none => .error (.outOfBounds i.toInt) : Except Failure Value) := by
  split
  · exact spared_ok _
  · exact spared_error (by simp)

theorem spared_nth (coll : Value) (i : Int64) (otherwise : Option Value) :
    Spared (nth coll i otherwise) := by
  have pick := spared_pick i otherwise
  unfold nth
  dsimp only
  split
  case h_5 => exact spared_bind (spared_error (by simp)) pick
  all_goals exact spared_bind (spared_ok _) pick

theorem spared_conjAs (id : Nat) (coll item : Value) : Spared (conjAs id coll item) := by
  unfold conjAs
  split
  case h_5 => split <;> first | exact spared_ok _ | exact spared_error (by simp)
  all_goals first | exact spared_ok _ | exact spared_error (by simp)

theorem spared_assocAs (id : Nat) (coll key value : Value) : Spared (assocAs id coll key value) := by
  unfold assocAs
  split
  · exact spared_ok _
  · exact spared_ok _
  · split
    · dsimp only
      split
      · exact spared_error (by simp)
      · split
        · exact spared_ok _
        · split
          · exact spared_ok _
          · exact spared_error (by simp)
    · exact spared_error (by simp)
  · exact spared_error (by simp)

theorem spared_dissocAs (id : Nat) (coll key : Value) : Spared (dissocAs id coll key) := by
  unfold dissocAs
  split <;> first | exact spared_ok _ | exact spared_error (by simp)

theorem tame_conj (coll item : Value) : Tame (conj coll item) :=
  tame_bind (tame_alloc 1) fun _ => tame_ofExcept (spared_conjAs _ _ _)

theorem tame_assoc (coll key value : Value) : Tame (assoc coll key value) :=
  tame_bind (tame_alloc 1) fun _ => tame_ofExcept (spared_assocAs _ _ _ _)

theorem tame_dissoc (coll key : Value) : Tame (dissoc coll key) :=
  tame_bind (tame_alloc 1) fun _ => tame_ofExcept (spared_dissocAs _ _ _)

theorem tame_first (coll : Value) : Tame (first coll) :=
  tame_bind (tame_itemsOf coll) fun _ => tame_pure _

theorem tame_rest (coll : Value) : Tame (rest coll) :=
  tame_bind (tame_itemsOf coll) fun _ => tame_newList _

theorem tame_cons (item coll : Value) : Tame (cons item coll) :=
  tame_bind (tame_itemsOf coll) fun _ => tame_newList _

theorem tame_seq (coll : Value) : Tame (seq coll) := by
  refine tame_bind (tame_itemsOf coll) fun items => ?_
  split
  · exact tame_pure _
  · exact tame_newList _

end Coll

/-! ## Core functions -/

namespace Core

theorem tame_checkArity (f : CoreFn) (least : Nat) (most : Option Nat) (args : List Value) :
    Tame (checkArity f least most args) := by
  unfold checkArity
  split
  · exact tame_raise (by simp [arityFailure])
  · exact tame_pure _

theorem spared_longArg (v : Value) : Spared (longArg v) := by
  unfold longArg
  split
  · exact spared_ok _
  · exact spared_error (by simp)

theorem tame_foldFromFirst {op : Value → Value → Run Value} (f : CoreFn) (neutral : Value)
    (h : ∀ a b, Tame (op a b)) (args : List Value) : Tame (foldFromFirst f neutral op args) := by
  unfold foldFromFirst
  split
  · exact tame_raise (by simp [arityFailure])
  · exact h _ _
  · exact tame_foldList h _ _

theorem spared_allNeighbours {test : Value → Value → Except Failure Bool} (h : ∀ a b, Spared (test a b)) :
    ∀ args : List Value, Spared (allNeighbours test args)
  | [] => spared_ok _
  | [_] => spared_ok _
  | x :: y :: rest => by
    refine spared_bind (h x y) fun b => ?_
    split
    · exact spared_allNeighbours h (y :: rest)
    · exact spared_ok _

theorem spared_chain {test : Value → Value → Except Failure Bool} (f : CoreFn)
    (h : ∀ a b, Spared (test a b)) (args : List Value) : Spared (chain f test args) := by
  unfold chain
  split
  · exact spared_error (by simp [arityFailure])
  · exact spared_bind (Numbers.spared_ofValue _) fun _ => spared_ok _
  · exact spared_bind (spared_allNeighbours h _) fun _ => spared_ok _

theorem spared_prefer {test : Value → Value → Except Failure Bool} (h : ∀ a b, Spared (test a b))
    (a b : Value) : Spared (prefer test a b) := by
  unfold prefer
  split
  · exact spared_ok _
  · refine spared_bind (h b a) fun t => ?_
    split <;> exact spared_ok _

theorem spared_toLong (v : Value) : Spared (toLong v) := by
  refine spared_bind (Numbers.spared_ofValue v) fun n => ?_
  split <;> exact spared_ok _

theorem tame_range (start stop step : Int64) : Tame (range start stop step) := by
  unfold range
  split
  · exact tame_raise (by simp)
  · split
    · exact tame_pure _
    · exact tame_abort

theorem tame_unary {op : Value → Run Value} (f : CoreFn) (h : ∀ x, Tame (op x)) (args : List Value) :
    Tame (unary f op args) := by
  unfold unary
  split
  · exact h _
  · exact tame_raise (by simp [arityFailure])

theorem tame_binary {op : Value → Value → Run Value} (f : CoreFn) (h : ∀ x y, Tame (op x y))
    (args : List Value) : Tame (binary f op args) := by
  unfold binary
  split
  · exact h _ _
  · exact tame_raise (by simp [arityFailure])

theorem tame_test (f : CoreFn) (p : Value → Bool) (args : List Value) : Tame (test f p args) := by
  unfold test
  split
  · exact tame_pure _
  · exact tame_raise (by simp [arityFailure])

theorem tame_result {x : Except Failure Value} (h : Spared x) : Tame (result x) := tame_ofExcept h

theorem tame_flag {x : Except Failure Bool} (h : Spared x) : Tame (flag x) :=
  tame_ofExcept (spared_map h)

theorem tame_callNumeric (f : CoreFn) (args : List Value) : Tame (callNumeric f args) := by
  unfold callNumeric
  split
  · exact tame_result (spared_foldlM Numbers.spared_add _ _)
  · exact tame_result (spared_foldlM Numbers.spared_multiply _ _)
  · exact tame_foldFromFirst _ _ (fun x y => tame_result (Numbers.spared_minus x y)) _
  · exact tame_foldFromFirst _ _ (fun x y => Numbers.tame_unlessFatal (Numbers.spared_divide x y)) _
  · exact tame_result (spared_chain _ Numbers.spared_lt _)
  · exact tame_result (spared_chain _ Numbers.spared_gt _)
  · exact tame_result (spared_chain _ Numbers.spared_lte _)
  · exact tame_result (spared_chain _ Numbers.spared_gte _)
  · exact tame_result (spared_chain _ Numbers.spared_numEquiv _)
  · exact tame_unary _ (fun x => tame_result (Numbers.spared_inc x)) _
  · exact tame_unary _ (fun x => tame_result (Numbers.spared_dec x)) _
  · exact tame_unary _ (fun x => tame_flag (Numbers.spared_isZero x)) _
  · exact tame_unary _ (fun x => tame_flag (Numbers.spared_isPos x)) _
  · exact tame_unary _ (fun x => tame_flag (Numbers.spared_isNeg x)) _
  · exact tame_binary _ (fun x y => tame_result (Numbers.spared_quotient x y)) _
  · exact tame_binary _ (fun x y => tame_result (Numbers.spared_remainder x y)) _
  · exact tame_binary _ (fun x y => Numbers.tame_unlessFatal (Numbers.spared_modulo x y)) _
  · exact tame_foldFromFirst _ _ (fun x y => tame_result (spared_prefer Numbers.spared_gt x y)) _
  · exact tame_foldFromFirst _ _ (fun x y => tame_result (spared_prefer Numbers.spared_lt x y)) _
  · exact tame_unary _ (fun x => tame_flag (spared_map (spared_longArg x))) _
  · exact tame_unary _ (fun x => tame_flag (spared_map (spared_longArg x))) _
  · exact tame_unary _ (fun x => tame_result (spared_toLong x)) _
  · exact tame_unary _ (fun x => tame_result (spared_map (Numbers.spared_ofValue x))) _
  · exact tame_pure _

theorem tame_mapColumn (pick : Value × Value → Value) (v : Value) : Tame (mapColumn pick v) := by
  unfold mapColumn
  split
  · exact tame_pure _
  · exact tame_pure _
  · exact tame_newList _
  · exact tame_raise (by simp)

theorem tame_nthCall (args : List Value) : Tame (callCollection .nth args) := by
  refine tame_bind (tame_checkArity _ _ _ _) fun _ => ?_
  split
  · exact tame_result (spared_bind (spared_longArg _) fun _ => Coll.spared_nth _ _ _)
  · exact tame_pure _

theorem tame_rangeCall (args : List Value) : Tame (callCollection .range args) := by
  refine tame_bind (tame_checkArity _ _ _ _) fun _ => tame_bind (tame_ofExcept ?_) fun _ =>
    tame_bind (tame_range _ _ _) fun _ => tame_newList _
  split
  · exact spared_bind (spared_longArg _) fun _ => spared_ok _
  · exact spared_bind (spared_longArg _) fun _ => spared_bind (spared_longArg _) fun _ => spared_ok _
  · exact spared_bind (spared_longArg _) fun _ => spared_bind (spared_longArg _) fun _ =>
      spared_bind (spared_longArg _) fun _ => spared_ok _
  · exact spared_ok _

theorem tame_callCollection (f : CoreFn) (args : List Value) : Tame (callCollection f args) := by
  unfold callCollection
  split
  · exact tame_newList _
  · exact tame_newVector _
  · exact tame_unary _ (fun x => tame_bind (tame_itemsOf x) fun _ => tame_newVector _) _
  · split
    · exact tame_raise (by simp)
    · exact tame_newMap _
  · exact tame_newSet _
  · exact tame_unary _ Coll.tame_first _
  · exact tame_unary _ (fun x => tame_bind (tame_itemsOf x) fun _ => tame_pure _) _
  · exact tame_unary _ (fun x => tame_bind (tame_itemsOf x) fun _ => tame_pure _) _
  · exact tame_unary _ Coll.tame_rest _
  · exact tame_unary _ (fun x => tame_bind (Coll.tame_rest x) Coll.tame_seq) _
  · exact tame_binary _ Coll.tame_cons _
  · exact tame_bind (tame_checkArity _ _ _ _) fun _ => tame_foldList Coll.tame_conj _ _
  · exact tame_unary _ (fun x => tame_result (spared_map (Coll.spared_count x))) _
  · exact tame_nthCall args
  · refine tame_bind (tame_checkArity _ _ _ _) fun _ => ?_
    split
    · exact tame_bind tame_world fun _ => tame_pure _
    · exact tame_pure _
  · split
    · exact tame_raise (by simp [arityFailure])
    · exact tame_foldList (fun _ _ => Coll.tame_assoc _ _ _) _ _
  · exact tame_bind (tame_checkArity _ _ _ _) fun _ => tame_foldList Coll.tame_dissoc _ _
  · exact tame_binary _ (fun _ _ => tame_pure _) _
  · exact tame_unary _ Coll.tame_seq _
  · exact tame_unary _ (fun x => tame_flag (spared_map (Coll.spared_count x))) _
  · exact tame_unary _ (tame_mapColumn _) _
  · exact tame_unary _ (tame_mapColumn _) _
  · exact tame_bind (tame_forList tame_itemsOf args) fun _ => tame_newList _
  · exact tame_unary _ (fun x => tame_bind (tame_itemsOf x) fun _ => tame_newList _) _
  · exact tame_rangeCall args
  · exact tame_binary _ (fun _ items => tame_bind (tame_itemsOf items) fun _ =>
      tame_foldList Coll.tame_conj _ _) _
  · exact tame_pure _

/-! ### Texts, names and system functions -/

theorem tame_print (text : String) : Tame (print text) :=
  tame_bind (tame_modify fun _ => rfl) fun _ => tame_pure _

theorem spared_nameOf (v : Value) : Spared (nameOf v) := by
  unfold nameOf
  split <;> first | exact spared_ok _ | exact spared_error (by simp)

theorem spared_toSymbol (args : List Value) : Spared (toSymbol args) := by
  unfold toSymbol
  split <;> first | exact spared_ok _ | exact spared_error (by simp)

theorem tame_nextGensym : Tame nextGensym := tame_change fun _ => rfl

theorem tame_callGeneral (f : CoreFn) (args : List Value) : Tame (callGeneral f args) := by
  unfold callGeneral
  split
  · exact tame_bind (tame_checkArity _ _ _ _) fun _ => tame_pure _
  · exact tame_bind (tame_checkArity _ _ _ _) fun _ => tame_pure _
  · exact tame_binary _ (fun _ _ => tame_pure _) _
  · exact tame_test _ _ _
  · exact tame_test _ _ _
  · exact tame_test _ _ _
  · exact tame_unary _ (fun _ => tame_pure _) _
  · exact tame_test _ _ _
  · exact tame_test _ _ _
  · exact tame_test _ _ _
  · exact tame_test _ _ _
  · exact tame_test _ _ _
  · exact tame_test _ _ _
  · exact tame_unary _ (fun _ => tame_pure _) _
  · exact tame_bind tame_world fun _ => tame_pure _
  · exact tame_bind tame_world fun _ => tame_pure _
  · exact tame_bind tame_world fun _ => tame_print _
  · exact tame_bind tame_world fun _ => tame_print _
  · exact tame_bind tame_world fun _ => tame_print _
  · exact tame_unary _ (fun x => tame_result (spared_nameOf x)) _
  · exact tame_unary _ (fun _ => tame_pure _) _
  · exact tame_bind (tame_checkArity _ _ _ _) fun _ => tame_result (spared_toSymbol _)
  · exact tame_bind (tame_checkArity _ _ _ _) fun _ => tame_bind tame_world fun _ =>
      tame_bind tame_nextGensym fun _ => tame_pure _
  · exact tame_unary _ (fun _ => tame_pure _) _
  · refine tame_binary _ (fun type x => ?_) _
    split
    · exact tame_bind tame_world fun _ => tame_pure _
    · exact tame_raise (by simp)
  · exact tame_pure _

theorem spared_varGet (w : World) (id : Nat) : Spared (w.varGet id) := by
  unfold World.varGet
  split
  · exact spared_ok _
  · exact spared_error (.of_head (by simp [Failure.illegalState]))

theorem spared_bindingsOf (v : Value) : Spared (bindingsOf v) := by
  unfold bindingsOf
  split
  · refine spared_mapM (fun (k, v) => ?_) _
    dsimp only
    split
    · exact spared_ok _
    · exact spared_error (by simp)
  · exact spared_ok _

theorem spared_checkDynamic (w : World) : ∀ bindings : List (Nat × Value), Spared (checkDynamic w bindings)
  | [] => spared_ok _
  | (id, _) :: rest => by
    unfold checkDynamic
    split
    · exact spared_checkDynamic w rest
    · exact spared_error (.of_head (by simp [Failure.illegalState]))

theorem tame_pushBindings (v : Value) : Tame (pushBindings v) :=
  tame_bind (tame_ofExcept (spared_bindingsOf v)) fun _ => tame_bind tame_world fun _ =>
    tame_bind (tame_ofExcept (spared_checkDynamic _ _)) fun _ =>
      tame_bind (tame_modify fun _ => rfl) fun _ => tame_pure _

theorem tame_popBindings : Tame popBindings := by
  refine tame_bind tame_world fun w => ?_
  split
  · exact tame_raise (.of_head (by simp [Failure.illegalState]))
  · exact tame_bind (tame_modify fun _ => rfl) fun _ => tame_pure _

theorem spared_symbolName (v : Value) : Spared (symbolName v) := by
  unfold symbolName
  split
  · exact spared_ok _
  · exact spared_error (by simp)

theorem tame_makeProtocol (name methods : Value) : Tame (makeProtocol name methods) :=
  tame_bind (tame_ofExcept (spared_symbolName name)) fun _ => tame_bind (tame_itemsOf methods) fun _ =>
    tame_bind (tame_ofExcept (spared_mapM spared_symbolName _)) fun _ => tame_change fun _ => rfl

theorem tame_makeProtocolMethod (p m : Value) : Tame (makeProtocolMethod p m) := by
  unfold makeProtocolMethod
  split
  · exact tame_bind (tame_alloc 1) fun _ => tame_pure _
  · exact tame_raise (by simp)

theorem tame_extendOne (p : Nat) (type : ClassId) (method f : Value) : Tame (extendOne p type method f) := by
  unfold extendOne
  split
  · refine tame_bind tame_world fun w => ?_
    dsimp only
    split
    · exact tame_modify fun _ => rfl
    · exact tame_raise (by simp)
  · exact tame_raise (by simp)

theorem tame_extendAll (p : Nat) (type : ClassId) :
    ∀ pairs : List (Value × Value), Tame (extendAll p type pairs)
  | [] => tame_pure _
  | (method, f) :: rest => tame_bind (tame_extendOne p type method f) fun _ => tame_extendAll p type rest

theorem spared_classArg (v : Value) : Spared (classArg v) := by
  unfold classArg
  split <;> first | exact spared_ok _ | exact spared_error (by simp)

theorem tame_extend (type protocol impls : Value) : Tame (extend type protocol impls) := by
  refine tame_bind (tame_ofExcept (spared_classArg type)) fun type => ?_
  split
  · split
    · exact tame_bind (tame_extendAll _ _ _) fun _ => tame_pure _
    · exact tame_raise (by simp)
  · exact tame_raise (by simp)

theorem World.code_ensureNs (w : World) (name : String) : (w.ensureNs name).code = w.code := by
  unfold World.ensureNs
  split <;> rfl

theorem tame_callSystem (f : CoreFn) (args : List Value) : Tame (callSystem f args) := by
  unfold callSystem
  split
  · refine tame_bind (tame_checkArity _ _ _ _) fun _ => ?_
    split
    · exact tame_bind tame_world fun _ => tame_bind (tame_alloc 1) fun _ => tame_pure _
    · exact tame_pure _
  · refine tame_unary _ (fun x => ?_) _
    split <;> exact tame_pure _
  · refine tame_unary _ (fun x => ?_) _
    split <;> exact tame_pure _
  · refine tame_unary _ (fun x => ?_) _
    split
    · exact tame_bind tame_world fun _ => tame_ofExcept (spared_varGet _ _)
    · exact tame_raise (by simp)
  · refine tame_unary _ (fun x => ?_) _
    split
    · exact tame_bind (tame_alloc 1) fun _ => tame_bind tame_world fun _ => tame_pure _
    · exact tame_pure _
  · refine tame_unary _ (fun x => ?_) _
    split
    · exact tame_bind (tame_modify fun w => World.code_ensureNs w _) fun _ => tame_pure _
    · exact tame_raise (by simp)
  · exact tame_unary _ tame_pushBindings _
  · exact tame_bind (tame_checkArity _ _ _ _) fun _ => tame_popBindings
  · exact tame_binary _ tame_makeProtocol _
  · exact tame_binary _ tame_makeProtocolMethod _
  · split
    · exact tame_extend _ _ _
    · exact tame_raise (by simp [arityFailure])
  · refine tame_binary _ (fun protocol x => ?_) _
    split
    · exact tame_bind tame_world fun _ => tame_pure _
    · exact tame_raise (by simp)
  · exact tame_pure _

/-- **Every core function is tame.** -/
theorem tame_call (f : CoreFn) (args : List Value) : Tame (call f args) := by
  unfold call
  split
  case h_1 =>
    exact tame_bind (tame_checkArity _ _ _ _) fun _ =>
      tame_bind (tame_forList tame_itemsOf _) fun _ => tame_pure _
  case h_2 =>
    split
    · exact tame_bind (tame_itemsOf _) fun _ => tame_pure _
    · exact tame_raise (by simp [arityFailure])
  case h_3 =>
    split
    · refine tame_bind (tame_itemsOf _) fun items => ?_
      split <;> exact tame_pure _
    · exact tame_bind (tame_itemsOf _) fun _ => tame_pure _
    · exact tame_raise (by simp [arityFailure])
  case h_4 =>
    exact tame_bind (tame_checkArity _ _ _ _) fun _ => tame_bind (tame_itemsOf _) fun _ => tame_pure _
  -- what is left only wraps the value of one of the four groups
  all_goals refine tame_bind ?_ fun _ => tame_pure _
  all_goals with_reducible first
    | exact tame_callNumeric _ _
    | exact tame_callCollection _ _
    | exact tame_callSystem _ _
    | exact tame_callGeneral _ _

end Core

/-! ## Host members -/

namespace Host

theorem spared_need {α : Type} (i : Nat) (o : Option α) : Spared (need i o) := by
  cases o with
  | some a => exact spared_ok a
  | none => exact spared_error (by simp [badArgument])

theorem spared_longArg (args : List Slot) (i : Nat) : Spared (longArg args i) := spared_need i _

theorem spared_doubleArg (args : List Slot) (i : Nat) : Spared (doubleArg args i) := spared_need i _

theorem spared_intArg (args : List Slot) (i : Nat) : Spared (intArg args i) := spared_need i _

theorem spared_textArg (args : List Slot) (i : Nat) : Spared (textArg args i) := by
  unfold textArg
  split
  · exact spared_ok _
  · exact spared_error (by simp)
  · exact spared_error (by simp)

theorem spared_arithLong (op : Arith) (a b : Int64) : Spared (arithLong op a b) := by
  cases op <;> exact Numbers.spared_fit _

theorem spared_arithBoxed (op : Arith) (a b : Value) : Spared (arithBoxed op a b) := by
  cases op
  · exact Numbers.spared_add a b
  · exact Numbers.spared_minus a b
  · exact Numbers.spared_multiply a b

theorem spared_compareBoxed (op : Comparison) (a b : Value) : Spared (compareBoxed op a b) := by
  cases op
  · exact Numbers.spared_lt a b
  · exact Numbers.spared_lte a b
  · exact Numbers.spared_gt a b
  · exact Numbers.spared_gte a b
  · exact Numbers.spared_numEquiv a b

theorem spared_signBoxed (op : SignTest) (a : Value) : Spared (signBoxed op a) := by
  cases op
  · exact Numbers.spared_isZero a
  · exact Numbers.spared_isPos a
  · exact Numbers.spared_isNeg a

theorem spared_divideByZero {α : Type} : Spared (.error Numbers.divideByZero : Except Failure α) :=
  spared_error (by simp [Numbers.divideByZero])

theorem spared_badArgument {α : Type} (i : Nat) : Spared (.error (badArgument i) : Except Failure α) :=
  spared_error (by simp [badArgument])

theorem spared_calculate (op : HostOp) (args : List Slot) : Spared (calculate op args) := by
  unfold calculate
  split
  -- every case looks for its operands one after the other and then builds the result
  all_goals repeat' with_reducible first
    | exact spared_pure _
    | exact spared_ok _
    | exact spared_longArg args _
    | exact spared_doubleArg args _
    | exact spared_intArg args _
    | exact spared_arithLong _ _ _
    | exact spared_arithBoxed _ _ _
    | exact spared_compareBoxed _ _ _
    | exact spared_signBoxed _ _
    | exact Numbers.spared_quotient _ _
    | exact Numbers.spared_remainder _ _
    | exact Numbers.spared_quotLong _ _
    | exact Numbers.spared_remLong _ _
    | exact Numbers.spared_inc _
    | exact Numbers.spared_dec _
    | exact Slot.spared_unbox _ _
    | exact Coll.spared_count _
    | exact Coll.spared_nth _ _ _
    | exact spared_divideByZero
    | exact spared_badArgument _
    | refine spared_bind ?_ fun _ => ?_
    | split
  · exact Numbers.spared_fit _
  · exact Numbers.spared_fit _
  · exact spared_error (by simp)

theorem spared_position (cs : List Char) (i : Int32) : Spared (position cs i) := by
  unfold position
  split
  · exact spared_error (by simp)
  · exact spared_ok _

theorem spared_textual (op : HostOp) (args : List Slot) : Spared (textual op args) := by
  unfold textual
  split
  all_goals repeat' with_reducible first
    | exact spared_pure _
    | exact spared_textArg args _
    | exact spared_intArg args _
    | exact spared_position _ _
    | exact spared_calculate _ _
    | exact spared_error (Failure.harmless_illegalArgument _)
    | exact spared_error (Failure.harmless_outOfBounds _)
    | refine spared_bind ?_ fun _ => ?_
    | split

theorem spared_builderArg (args : List Slot) : Spared (builderArg args) := by
  unfold builderArg
  split
  · exact spared_ok _
  · exact spared_error (by simp)

theorem tame_newException (type : ClassId) (message : Option String) (data : Value) :
    Tame (newException type message data) := tame_bind (tame_alloc 1) fun _ => tame_pure _

/-- **Every host member is tame.** -/
theorem tame_call (op : HostOp) (args : List Slot) : Tame (call op args) := by
  have text := fun i => tame_ofExcept (spared_textArg args i)
  have builder := tame_ofExcept (spared_builderArg args)
  unfold call
  split
  · exact tame_bind tame_world fun _ => tame_pure _
  · exact tame_bind tame_world fun _ => tame_pure _
  · exact tame_bind tame_world fun _ => tame_pure _
  · exact tame_bind tame_world fun _ => tame_pure _
  · exact tame_bind tame_world fun _ => tame_pure _
  · exact tame_change fun _ => rfl
  · exact tame_bind (text 0) fun _ => tame_change fun _ => rfl
  · exact tame_bind builder fun _ => tame_bind tame_world fun _ =>
      tame_bind (tame_modify fun _ => rfl) fun _ => tame_pure _
  · exact tame_bind builder fun _ => tame_bind tame_world fun _ => tame_pure _
  · exact tame_newException _ _ _
  · exact tame_bind (text 0) fun _ => tame_newException _ _ _
  · exact tame_bind (text 0) fun _ => tame_newException _ _ _
  · split
    · exact tame_pure _
    · exact tame_raise (by simp)
  · split
    · exact tame_pure _
    · exact tame_raise (by simp)
  · exact tame_bind (Numbers.tame_unlessFatal (Numbers.spared_divide _ _)) fun _ => tame_pure _
  · exact tame_ofExcept (spared_textual _ _)

end Host

end LispMachine
