import LispMachine.Analyze.Member
import LispMachine.Proofs.Expr.Calls
import LispMachine.Proofs.Sites.History
/-!
# Reading fields

A field of an instance can be read by position in code that knows the class, by name in code that does not, by a keyword
call and by `get`.  Reading by name looks in the instance's own type.  Reading by position uses the position that was
found when the code was analyzed, in the class that the code was linked to when it was loaded.  If the two are the same
class then all ways agree at every later moment (`field_reads_agree`), since a class keeps its fields also when its name
is declared again.  Otherwise the position is used on the fields of the new class, where it may stand for another field
or for none; that is why the result asks for the position in the class the code is linked to (`knownField_inst`).
-/
namespace LispMachine.Machine

open Run World

variable {w w' : World} {obj i t : Nat} {type : ClassId} {name field : String} {f f' : Frame}

/-- What stands in a field now. -/
def slotAt (w : World) (obj i : Nat) : Slot := ((w.fieldsOf obj)[i]?).getD Slot.empty

/-! ## Histories -/

/-- An event leaves what call sites have found as it is. -/
theorem Event.grows {e : Event} (hw : w.Wired) (he : e.Numbered) : Grows w (e.happen w) := by
  have hs := stable_wired w
  cases e with
  | keyword unit site target =>
    cases hc : keywordSite? w unit site with
    | none =>
      rw [happen, keywordInvoke_outOfRange hc]
      exact grows_of_wiring rfl
    | some cell =>
      obtain ⟨w', c', hr, hg, -⟩ := keywordInvoke_spec hw hc he
      rw [happen, hr]
      exact hg
  | protocol unit site target args =>
    cases hc : protocolSite? w unit site with
    | none =>
      rw [happen, protocolInvoke_outOfRange hc]
      exact grows_of_wiring rfl
    | some cell =>
      obtain ⟨cache, generation, w', hsite, -, hr⟩ := protocolInvoke_spec hw hc he args
      have hg : Grows w w' := by
        rw [hsite]
        exact grows_units w _
      rw [happen, hr]
      split
      · exact hg.trans (grows_of_wiring (dispatches_runDispatcher w' _ _ _).wiring)
      · exact hg.trans (grows_of_wiring rfl)
  | extend type protocol impls => exact (preserves_extend hs type protocol impls w ⟨hw, .refl w⟩).2
  | makeProtocol name methods =>
    refine (preserves_makeProtocol hs (fun w name methods h => ?_) name methods w ⟨hw, .refl w⟩).2
    exact ⟨h.1.pushProtocol name methods, h.2.trans (grows_pushProtocol w name methods)⟩
  | declare name fields reified => exact grows_declareType hw name fields reified
  | load u => exact (hw.load u).2
  | aside change apart => exact grows_of_wiring (apart w)

/-- **A history leaves what call sites have found as it is.** -/
theorem grows_after : ∀ (es : List Event) {w : World}, w.Wired → (∀ e ∈ es, e.Numbered) →
    (after w es).dispatchers.entries.size ≤ words → Grows w (after w es)
  | [], w, _, _, _ => .refl w
  | e :: es, w, hw, hn, hsize => by
    obtain ⟨he, hes⟩ := List.forall_mem_cons.mp hn
    have hwired := Event.wired hw he (Nat.le_trans (size_le_after es _) hsize)
    exact (Event.grows hw he).trans (grows_after es hwired hes hsize)

/-! ## One read -/

/-- **By position**: the slot at the position, if the class is the one that the code was linked to. -/
theorem knownField_inst (linked : ClassId × String) :
    Activation.knownField linked i (.inst obj type name) w = if type = linked.1 then (.value (slotAt w obj i), w)
      else raise (.classCast (.inst obj type name) linked.2) w := by
  by_cases h : type = linked.1
  · simp only [Activation.knownField, world_bind, h, BEq.rfl, if_true]
    rfl
  · simp only [Activation.knownField, world_bind, h, beq_eq_false_iff_ne.mpr h, if_false, Bool.false_eq_true]

theorem fieldNamed?_eq (hi : w.fieldIndex? type field = some i) :
    w.fieldNamed? obj type field = some (slotAt w obj i).toValue := by
  have hi : (w.typeDef? type).bind (·.fieldIndex? field) = some i := hi
  rw [World.fieldNamed?, hi]
  rfl

/-- **By name**, where the code does not know the class. -/
theorem getField_inst (hi : w.fieldIndex? type field = some i) :
    getField (.inst obj type name) ("-" ++ field) w = (.value (.value (slotAt w obj i).toValue), w) := by
  have hdash : ("-" ++ field).startsWith "-" = true := by
    rw [String.startsWith_string_iff, String.toList_append]
    exact List.prefix_append _ _
  have hname : String.ofList (("-" ++ field).toList.drop 1) = field := by simp
  simp only [getField, hdash, if_true, hname, world_bind, fieldNamed?_eq hi]
  rfl

/-- **By lookup.** -/
theorem get_inst (hi : w.fieldIndex? type field = some i) (otherwise : Value) :
    Coll.get w (.inst obj type name) (.keyword ⟨none, field⟩) otherwise = (slotAt w obj i).toValue := by
  have hget : Coll.get w (.inst obj type name) (.keyword ⟨none, field⟩) otherwise =
      (w.fieldNamed? obj type field).getD otherwise := rfl
  rw [hget, fieldNamed?_eq hi, Option.getD_some]

/-! ## Slots -/

theorem fieldIndex?_lt {d : TypeDef} (hd : w.typeDef? type = some d) (hi : w.fieldIndex? type field = some i) :
    i < d.fields.length := by
  rw [World.fieldIndex?, hd, Option.bind_some, TypeDef.fieldIndex?] at hi
  split at hi
  · cases hi
  · exact (List.findIdx?_eq_some_iff_getElem.mp hi).1

theorem length_of_mapM {ε α β : Type} {g : α → Except ε β} : ∀ {as : List α} {bs : List β}, as.mapM g = .ok bs →
    bs.length = as.length
  | [], bs, h => by
    obtain rfl := Except.ok.inj h
    rfl
  | a :: as, bs, h => by
    rw [List.mapM_cons] at h
    cases hb : g a with
    | error e =>
      rw [hb] at h
      cases h
    | ok b =>
      cases hbs : as.mapM g with
      | error e =>
        rw [hb, hbs] at h
        cases h
      | ok bs' =>
        rw [hb, hbs] at h
        obtain rfl := Except.ok.inj h
        rw [List.length_cons, List.length_cons, length_of_mapM hbs]

/-- **A new instance has a slot for each field** of its type. -/
theorem construct_inst {args : List Value} {v : Value} {d : TypeDef} (hd : w.typeDef? type = some d)
    (h : construct type args w = (.value v, w')) :
    ∃ obj name, v = .inst obj type name ∧
      ∀ field i, w.fieldIndex? type field = some i → i < (w'.fieldsOf obj).size := by
  obtain ⟨c, hc, hdeclared⟩ := Option.bind_eq_some_iff.mp hd
  simp only [construct, world_bind, hc, hdeclared] at h
  by_cases hlen : args.length = d.fields.length
  · rw [if_neg (by simpa using hlen)] at h
    cases hslots : fieldSlots d.fields args with
    | error e =>
      rw [hslots] at h
      cases h
    | ok slots =>
      rw [hslots] at h
      cases h
      refine ⟨w.fields.size, c.name, rfl, fun field i hi => ?_⟩
      have hsize := length_of_mapM hslots
      rw [List.length_zip, hlen, Nat.min_self] at hsize
      have hi := fieldIndex?_lt hd hi
      simpa [World.fieldsOf, hsize] using hi
  · rw [if_pos (by simpa using hlen)] at h
    cases h

/-! ## All reads -/

theorem fieldIndex?_of_knownField? {c : Class} {r : FieldRef} (hr : Analyze.knownField? (some c) field = some r)
    (hc : w.classes.get? c.id = some c) : w.fieldIndex? c.id field = some r.index := by
  simp only [Analyze.knownField?, Option.bind_eq_bind, Option.bind_some, Option.bind_eq_some_iff, Option.pure_def,
    Option.some.injEq] at hr
  obtain ⟨d, hd, index, hindex, rfl⟩ := hr
  rw [World.fieldIndex?, World.typeDef?, hc, Option.bind_some, hd, Option.bind_some, hindex]

/-- **All ways to read a field agree** if the code that reads it by position was linked to the class in which the
position was found.  This may be long ago: meanwhile the name of the class may have been declared again. -/
theorem field_reads_agree {es : List Event} (hw : w.Wired) (hnum : ∀ e ∈ es, e.Numbered)
    (hsize : (after w es).dispatchers.entries.size ≤ words) {c : Class} {r : FieldRef}
    (hr : Analyze.knownField? (some c) field = some r) (hc : w.classes.get? c.id = some c) (hid : c.id < words)
    {n : String} {s : Slot} {st : List Slot} {m site : Nat} {cell : KeywordSite}
    (hlink : f.classAt (after w es) t = .ok (c.id, n)) (hname : f.nameAt (after w es) m = .ok ("-" ++ field))
    (hcell : keywordSite? (after w es) f.unit site = some cell) (hkey : cell.keyword = ⟨none, field⟩)
    (hst : f.stack = s :: st) (hs : s.toValue = .inst obj c.id name) :
    ∃ slot, step f (.getField t r.index) (after w es) = (.value (.next { f with stack := slot :: st }), after w es) ∧
      step f (.getFieldReflective m) (after w es) =
        (.value (.next { f with stack := .obj slot.toValue :: st }), after w es) ∧
      (∃ w', step f (.keywordInvoke site) (after w es) =
        (.value (.next { f with stack := .obj slot.toValue :: st }), w')) ∧
      ∀ otherwise, Coll.get (after w es) s.toValue (.keyword ⟨none, field⟩) otherwise = slot.toValue := by
  have hi := (grows_after es hw hnum hsize).fields _ _ _ (fieldIndex?_of_knownField? hr hc)
  have hwired := wired_after es hw hnum hsize
  refine ⟨slotAt (after w es) obj r.index, ?_, ?_, ?_, fun otherwise => ?_⟩
  · rw [step_getField hst hlink, hs]
    simp only [Bind.bind, Run.bind, knownField_inst, if_true]
    rfl
  · rw [step_getFieldReflective hst hname, hs]
    simp only [Bind.bind, Run.bind, getField_inst hi]
    rfl
  · have htarget : s.toValue.classId < words := by
      rw [hs]
      exact hid
    obtain ⟨w', c', hread, -⟩ := keywordInvoke_spec hwired hcell htarget
    refine ⟨w', ?_⟩
    rw [step_keywordInvoke hst]
    simp only [Bind.bind, Run.bind, hread]
    rw [hkey, hs, get_inst hi]
    rfl
  · rw [hs, get_inst hi]

end LispMachine.Machine
