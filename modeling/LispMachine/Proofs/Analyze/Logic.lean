import LispMachine.Analyze.Basic
import LispMachine.Proofs.Expr.Fitted
/-!
# Reasoning about analysis

The tables of an analysis only grow (`Context.Grows`): a local stays with its method, and a method keeps
the slots it has handed out.  A context is tidy if every local has one of the slots of its method and what
the scope and the objects name exists (`Context.Tidy`).

`Yields p c x Q` says of an analysis that starts in a tidy context, at a place like `p`, and succeeds: the
context is tidy again, the place is the same, and `Q` holds of the result there and ever after.  An
analysis that may end at another place, as long as the place is put back around it, only `Leads` to `Q`.
-/
namespace LispMachine

/-- The place of a form in its method: where it may keep its locals, and what may stand there. -/
structure Place where
  room : Room
  loopLocals : Option (List Nat)
  noRecur : Bool
  methodReturn : Bool

/-- The place with the slots from here on. -/
def Place.above (p : Place) (floor : Nat) : Place := { p with room := p.room.above floor }

/-- The place that a scope describes, if the slots from here on are free. -/
def Scope.place (s : Scope) (floor : Nat) : Place := ⟨⟨s.method, floor, s.inHandler⟩, s.loopLocals, s.noRecur, s.methodReturn⟩

namespace Context

/-- Nothing that the first context knows is lost in the second. -/
structure Grows (c c' : Context) : Prop where
  size : c.bindings.size ≤ c'.bindings.size
  owner : ∀ b < c.bindings.size, (c'.binding b).method = (c.binding b).method
  slot : ∀ b, (c.binding b).slot ≤ (c'.binding b).slot
  used : ∀ b, (c.binding b).usedInHandler = true → (c'.binding b).usedInHandler = true
  slots : ∀ m, (c.method m).maxSlot ≤ (c'.method m).maxSlot
  methods : c.methods.size ≤ c'.methods.size

/-- The tables are in order: locals have slots of their methods, and objects capture locals that exist. -/
structure Orderly (c : Context) : Prop where
  roomy : c.Roomy
  closes : ∀ o, ∀ b ∈ (c.object o).closes, b < c.bindings.size

/-- What the place names exists. -/
structure Admits (c : Context) (p : Place) : Prop where
  method : ∀ m, p.room.method = some m → m < c.methods.size
  loop : ∀ ts, p.loopLocals = some ts → ∀ t ∈ ts, c.Owns (p.room.above 0) t

structure Tidy (c : Context) : Prop where
  orderly : c.Orderly
  env : ∀ e ∈ c.scope.env, e.2 < c.bindings.size
  admits : c.Admits (c.scope.place 0)

/-- The analysis is at the place: the next slot is one of those that are free. -/
def At (c : Context) (p : Place) : Prop := ∃ floor, floor ≤ c.scope.nextSlot ∧ c.scope.place floor = p

variable {c c' c'' : Context} {p : Place}

theorem lt_of_method_eq_some {x m : Nat} (h : (c.binding x).method = some m) : x < c.bindings.size := by
  refine Nat.lt_of_not_le fun hle => ?_
  rw [binding, Array.getElem?_eq_none hle] at h
  cases h

theorem Grows.refl (c : Context) : Grows c c :=
  ⟨Nat.le_refl _, fun _ _ => rfl, fun _ => Nat.le_refl _, fun _ h => h, fun _ => Nat.le_refl _, Nat.le_refl _⟩

theorem Grows.trans (h : Grows c c') (h' : Grows c' c'') : Grows c c'' :=
  ⟨Nat.le_trans h.size h'.size, fun b hb => (h'.owner b (Nat.lt_of_lt_of_le hb h.size)).trans (h.owner b hb),
    fun b => Nat.le_trans (h.slot b) (h'.slot b), fun b hb => h'.used b (h.used b hb),
    fun m => Nat.le_trans (h.slots m) (h'.slots m), Nat.le_trans h.methods h'.methods⟩

theorem Grows.method_eq (h : Grows c c') {b m : Nat} (hb : (c.binding b).method = some m) : (c'.binding b).method = some m :=
  (h.owner b (lt_of_method_eq_some hb)).trans hb

theorem Grows.owns (h : Grows c c') {r : Room} {b : Nat} (ho : c.Owns r b) : c'.Owns r b :=
  ⟨Nat.le_trans ho.free (h.slot b), fun m hm => h.method_eq (ho.method m hm)⟩

theorem Grows.holds (h : Grows c c') {r : Room} {slot : Nat} (hs : c.Holds r slot) : c'.Holds r slot :=
  ⟨hs.free, fun m hm => Nat.le_trans (hs.method m hm) (h.slots m)⟩

theorem Grows.lasts (h : Grows c c') {r : Room} {b : Nat} (hl : c.Lasts r b) : c'.Lasts r b := by
  refine ⟨Nat.lt_of_lt_of_le hl.known h.size, fun hr m hm hb => h.used b (hl.used hr m hm ?_)⟩
  rw [← h.owner b hl.known]
  exact hb

theorem Grows.admits (h : Grows c c') (ha : c.Admits p) : c'.Admits p :=
  ⟨fun m hm => Nat.lt_of_lt_of_le (ha.method m hm) h.methods, fun ts hts t ht => h.owns (ha.loop ts hts t ht)⟩

/-- A handler is in the same method and the same loop. -/
theorem Admits.handling (ha : c.Admits p) : c.Admits { p with room := p.room.handling, methodReturn := false } := by
  refine ⟨ha.method, fun ts hts t ht => ?_⟩
  obtain ⟨hfree, hmethod⟩ := ha.loop ts hts t ht
  exact ⟨hfree, hmethod⟩

/-- A change that leaves alone who owns which slot, the methods and the place. -/
structure Mild (c c' : Context) : Prop where
  size : c'.bindings.size = c.bindings.size
  owner : ∀ b, (c'.binding b).method = (c.binding b).method
  slot : ∀ b, (c'.binding b).slot = (c.binding b).slot
  used : ∀ b, (c.binding b).usedInHandler = true → (c'.binding b).usedInHandler = true
  closes : ∀ o, ∀ b ∈ (c'.object o).closes, b ∈ (c.object o).closes ∨ b < c.bindings.size
  methods : c'.methods = c.methods
  scope : (c'.scope.place, c'.scope.nextSlot, c'.scope.env) = (c.scope.place, c.scope.nextSlot, c.scope.env)

theorem Mild.refl (c : Context) : Mild c c := ⟨rfl, fun _ => rfl, fun _ => rfl, fun _ h => h, fun _ _ h => .inl h, rfl, rfl⟩

theorem Mild.trans (h : Mild c c') (h' : Mild c' c'') : Mild c c'' := by
  refine ⟨h'.size.trans h.size, fun b => (h'.owner b).trans (h.owner b), fun b => (h'.slot b).trans (h.slot b),
    fun b hb => h'.used b (h.used b hb), fun o b hb => ?_, h'.methods.trans h.methods, h'.scope.trans h.scope⟩
  rcases h'.closes o b hb with hb | hb
  · exact h.closes o b hb
  · exact .inr (h.size ▸ hb)

/-- Neither locals nor objects are touched. -/
theorem mild_of_eq (hb : c'.bindings = c.bindings) (ho : c'.objects = c.objects) (hm : c'.methods = c.methods)
    (hs : (c'.scope.place, c'.scope.nextSlot, c'.scope.env) = (c.scope.place, c.scope.nextSlot, c.scope.env)) : Mild c c' := by
  have hbinding : ∀ b, c'.binding b = c.binding b := fun b => by rw [binding, hb, binding]
  refine ⟨by rw [hb], fun b => by rw [hbinding], fun b => by rw [hbinding], fun b h => by rw [hbinding, h], fun o b h => .inl ?_, hm, hs⟩
  rw [object, ho] at h
  exact h

/-- It also leaves alone what is known of the values of locals. -/
structure Quiet (c c' : Context) : Prop extends Mild c c' where
  kinds : ∀ b, ((c'.binding b).prim, (c'.binding b).recurMismatch) = ((c.binding b).prim, (c.binding b).recurMismatch)

theorem Quiet.refl (c : Context) : Quiet c c := ⟨.refl c, fun _ => rfl⟩

theorem Quiet.trans (h : Quiet c c') (h' : Quiet c' c'') : Quiet c c'' := ⟨h.toMild.trans h'.toMild, fun b => (h'.kinds b).trans (h.kinds b)⟩

theorem quiet_of_eq (hb : c'.bindings = c.bindings) (ho : c'.objects = c.objects) (hm : c'.methods = c.methods)
    (hs : (c'.scope.place, c'.scope.nextSlot, c'.scope.env) = (c.scope.place, c.scope.nextSlot, c.scope.env)) : Quiet c c' :=
  ⟨mild_of_eq hb ho hm hs, fun b => by rw [binding, hb, binding]⟩

theorem Mild.at (h : Mild c c') (hp : c.At p) : c'.At p := by
  obtain ⟨floor, hn, rfl⟩ := hp
  obtain ⟨hplace, hrest⟩ := Prod.mk.inj h.scope
  exact ⟨floor, (Prod.mk.inj hrest).1 ▸ hn, congrFun hplace floor⟩

theorem Mild.grows (h : Mild c c') : Grows c c' := by
  refine ⟨Nat.le_of_eq h.size.symm, fun b _ => h.owner b, fun b => Nat.le_of_eq (h.slot b).symm, h.used, fun m => Nat.le_of_eq ?_,
    Nat.le_of_eq ?_⟩
  · rw [method, method, h.methods]
  · rw [h.methods]

theorem Mild.tidy (h : Mild c c') (ht : c.Tidy) : c'.Tidy := by
  obtain ⟨hplace, hrest⟩ := Prod.mk.inj h.scope
  refine ⟨⟨fun b m hb => ?_, fun o b hb => ?_⟩, fun e he => ?_, ?_⟩
  · rw [h.owner] at hb
    rw [h.slot, method, h.methods]
    exact ht.orderly.roomy b m hb
  · rw [h.size]
    exact (h.closes o b hb).elim (ht.orderly.closes o b) id
  · rw [h.size]
    rw [(Prod.mk.inj hrest).2] at he
    exact ht.env e he
  · rw [congrFun hplace]
    exact h.grows.admits ht.admits

/-- A visible local exists. -/
theorem Tidy.lookup_lt (h : c.Tidy) {s : Symbol} {x : Nat} (hx : c.lookupLocal? s = some x) : x < c.bindings.size := by
  unfold lookupLocal? at hx
  split at hx
  · cases hx
  · obtain ⟨e, he, rfl⟩ := Option.map_eq_some_iff.1 hx
    exact h.env e (List.mem_of_find?_eq_some he)

/-! ## Changes of the tables -/

theorem binding_push (c : Context) (b : Binding) (s : Scope) (x : Nat) :
    binding { c with bindings := c.bindings.push b, scope := s } x = if x = c.bindings.size then b else c.binding x := by
  simp only [binding, Array.getElem?_push]
  split <;> rfl

theorem binding_modify (c : Context) (id : Nat) (f : Binding → Binding) (x : Nat) :
    (c.modifyBinding id f).binding x = if id = x ∧ x < c.bindings.size then f (c.binding x) else c.binding x := by
  simp only [modifyBinding, binding, Array.getElem?_modify]
  by_cases he : id = x
  · by_cases hx : x < c.bindings.size
    · simp [he, hx]
    · simp [he, hx]
  · simp [he]

theorem modifyBinding_mild (id : Nat) {f : Binding → Binding} (hm : ∀ b, (f b).method = b.method) (hs : ∀ b, (f b).slot = b.slot)
    (hu : ∀ b, b.usedInHandler = true → (f b).usedInHandler = true) : Mild c (c.modifyBinding id f) := by
  refine ⟨Array.size_modify, fun x => ?_, fun x => ?_, fun x hx => ?_, fun _ _ h => .inl h, rfl, rfl⟩
  all_goals rw [binding_modify]
  · split
    · exact hm _
    · rfl
  · split
    · exact hs _
    · rfl
  · split
    · exact hu _ hx
    · exact hx

theorem modifyBinding_quiet (id : Nat) {f : Binding → Binding} (hm : ∀ b, (f b).method = b.method) (hs : ∀ b, (f b).slot = b.slot)
    (hu : ∀ b, b.usedInHandler = true → (f b).usedInHandler = true)
    (hk : ∀ b, ((f b).prim, (f b).recurMismatch) = (b.prim, b.recurMismatch)) : Quiet c (c.modifyBinding id f) := by
  refine ⟨modifyBinding_mild id hm hs hu, fun x => ?_⟩
  rw [binding_modify]
  split
  · exact hk _
  · rfl

/-- A local that exists is captured. -/
theorem capture_mild {x : Nat} (hx : x < c.bindings.size) (obj : Nat) : Mild c (c.capture obj x) := by
  refine ⟨rfl, fun _ => rfl, fun _ => rfl, fun _ h => h, fun o b hb => ?_, rfl, rfl⟩
  simp only [capture, object, Array.getElem?_modify] at hb
  split at hb
  · cases ho : c.objects[o]? with
    | none =>
      rw [ho] at hb
      cases hb
    | some frame =>
      rw [ho] at hb
      simp only [Option.map_some, Option.getD_some] at hb
      split at hb
      · exact .inl (by rw [object, ho]; exact hb)
      · rcases List.mem_append.1 hb with hb | hb
        · exact .inl (by rw [object, ho]; exact hb)
        · cases List.mem_singleton.1 hb
          exact .inr hx
  · exact .inl hb

theorem captureFrom_mild (x : Nat) : ∀ (fuel m : Nat) (c : Context), x < c.bindings.size → Mild c (captureFrom x fuel m c)
  | 0, _, c, _ => .refl c
  | fuel + 1, m, c, hx => by
    rw [captureFrom]
    split
    · split
      · exact modifyBinding_mild x (fun _ => rfl) (fun _ => rfl) fun _ _ => rfl
      · exact .refl c
    · have hc : Mild c (c.capture (c.method m).obj x) := capture_mild hx _
      dsimp only
      split
      · exact hc.trans (captureFrom_mild x fuel _ _ hx)
      · exact hc

theorem closeOver_mild {x : Nat} (hx : x < c.bindings.size) : Mild c (c.closeOver x) := by
  unfold closeOver
  split
  · exact captureFrom_mild x _ _ c hx
  · exact .refl c

/-- A local that is used in a handler of its own method is known to be. -/
theorem closeOver_used {x m : Nat} (hx : x < c.bindings.size) (hh : c.scope.inHandler = true) (hm : c.scope.method = some m)
    (hb : (c.binding x).method = some m) : ((c.closeOver x).binding x).usedInHandler = true := by
  simp only [closeOver, hm, captureFrom, hb, beq_self_eq_true, if_true, hh, binding_modify, hx, and_self]

/-- A use of a local. -/
theorem referenceLocal_spec {x : Nat} (hx : x < c.bindings.size) (tag : Option String) : Mild c (c.referenceLocal x tag).2 ∧
    (c.referenceLocal x tag).1.binding = x ∧ ∀ y, (c.referenceLocal x tag).2.binding y = (c.closeOver x).binding y := by
  have hmild := closeOver_mild hx
  unfold referenceLocal
  dsimp only
  split
  · split <;> exact ⟨hmild.trans (mild_of_eq rfl rfl rfl rfl), rfl, fun _ => rfl⟩
  · exact ⟨hmild.trans (mild_of_eq rfl rfl rfl rfl), rfl, fun _ => rfl⟩

theorem addObject_mild (name : String) (kind : ObjectKind) (once : Bool) : Mild c (c.addObject name kind once).2 := by
  refine ⟨rfl, fun _ => rfl, fun _ => rfl, fun _ h => h, fun o b hb => .inl ?_, rfl, rfl⟩
  simp only [addObject, object, Array.getElem?_push] at hb
  split at hb
  · cases hb
  · exact hb

/-- A slot is handed out. -/
theorem allocSlot_spec (c : Context) (h : c.Tidy) : c.allocSlot.2.Tidy ∧ c.Grows c.allocSlot.2 ∧
    ∀ m, c.scope.method = some m → c.allocSlot.1 ≤ (c.allocSlot.2.method m).maxSlot := by
  have htidy : c.Grows c.allocSlot.2 → c.allocSlot.2.Tidy := fun hg =>
    ⟨⟨fun b m hb => Nat.le_trans (h.orderly.roomy b m hb) (hg.slots m), h.orderly.closes⟩, h.env, hg.admits h.admits⟩
  cases hm : c.scope.method with
  | none =>
    have hmethods : c.allocSlot.2.methods = c.methods := by simp only [allocSlot, hm]
    have hgrows : c.Grows c.allocSlot.2 := by
      refine ⟨Nat.le_refl _, fun _ _ => rfl, fun _ => Nat.le_refl _, fun _ h => h, fun m => Nat.le_of_eq ?_, Nat.le_of_eq ?_⟩
      · rw [method, method, hmethods]
      · rw [hmethods]
    exact ⟨htidy hgrows, hgrows, fun m hm => by cases hm⟩
  | some m =>
    have hlt : m < c.methods.size := h.admits.method m hm
    have hmethod : ∀ k, (c.allocSlot.2.method k).maxSlot =
        if m = k then max (c.method k).maxSlot c.scope.nextSlot else (c.method k).maxSlot := by
      intro k
      simp only [allocSlot, hm, method, Array.getElem?_modify]
      by_cases he : m = k
      · subst he
        simp [Array.getElem?_eq_getElem hlt]
      · simp [he]
    have hgrows : c.Grows c.allocSlot.2 := by
      refine ⟨Nat.le_refl _, fun _ _ => rfl, fun _ => Nat.le_refl _, fun _ h => h, fun k => ?_, ?_⟩
      · rw [hmethod]
        split
        · exact Nat.le_max_left _ _
        · exact Nat.le_refl _
      · simp only [allocSlot, hm, Array.size_modify, Nat.le_refl]
    refine ⟨htidy hgrows, hgrows, fun k hk => ?_⟩
    rw [hmethod, if_pos (Option.some.inj hk)]
    exact Nat.le_max_right _ _

/-- A local is added, with a slot that its method has. -/
theorem addBinding_spec (c : Context) (b : Binding) (h : c.Tidy) (hm : b.method = c.scope.method)
    (hs : ∀ m, c.scope.method = some m → b.slot ≤ (c.method m).maxSlot) : (c.addBinding b).2.Tidy ∧ c.Grows (c.addBinding b).2 ∧
    (c.addBinding b).2.binding (c.addBinding b).1 = b ∧ (c.addBinding b).1 < (c.addBinding b).2.bindings.size := by
  have hb : ∀ x, (c.addBinding b).2.binding x = if x = c.bindings.size then b else c.binding x := fun x => binding_push c b _ x
  have hsize : (c.addBinding b).2.bindings.size = c.bindings.size + 1 := Array.size_push _
  have hold : ∀ x, c.bindings.size ≤ x → c.binding x = default := by
    intro x hx
    rw [binding, Array.getElem?_eq_none hx]
    rfl
  have hgrows : c.Grows (c.addBinding b).2 := by
    refine ⟨hsize ▸ Nat.le_succ _, fun x hx => ?_, fun x => ?_, fun x hx => ?_, fun _ => Nat.le_refl _, Nat.le_refl _⟩
    · rw [hb, if_neg (Nat.ne_of_lt hx)]
    · rw [hb]
      split
      · rename_i he
        rw [hold x (Nat.le_of_eq he.symm)]
        exact Nat.zero_le _
      · exact Nat.le_refl _
    · rw [hb]
      split
      · rename_i he
        rw [hold x (Nat.le_of_eq he.symm)] at hx
        cases hx
      · exact hx
  refine ⟨⟨⟨fun x m hx => ?_, fun o x hx => ?_⟩, fun e he => ?_, hgrows.admits h.admits⟩, hgrows, ?_, ?_⟩
  · rw [hb] at hx ⊢
    split at hx
    · rename_i he
      rw [if_pos he]
      exact hs m (hm.symm.trans hx)
    · rename_i he
      rw [if_neg he]
      exact h.orderly.roomy x m hx
  · exact Nat.lt_of_lt_of_le (h.orderly.closes o x hx) hgrows.size
  · rw [hsize]
    rcases List.mem_cons.1 he with rfl | he
    · exact Nat.lt_succ_self _
    · exact Nat.lt_succ_of_lt (h.env e he)
  · exact (hb c.bindings.size).trans (if_pos rfl)
  · rw [hsize]
    exact Nat.lt_succ_self _

theorem registerLocal_spec (c : Context) (name : Symbol) (tag : Option String) (prim : Option Prim) (isArg : Bool) (h : c.Tidy) :
    (c.registerLocal name tag prim isArg).2.Tidy ∧ c.Grows (c.registerLocal name tag prim isArg).2 ∧
    (∀ r : Room, r.method = c.scope.method → r.floor ≤ c.scope.nextSlot →
      (c.registerLocal name tag prim isArg).2.Owns r (c.registerLocal name tag prim isArg).1) ∧
    (c.registerLocal name tag prim isArg).1 < (c.registerLocal name tag prim isArg).2.bindings.size := by
  obtain ⟨ht, hg, hs⟩ := c.allocSlot_spec h
  have hm : c.allocSlot.2.scope.method = c.scope.method := rfl
  obtain ⟨ht', hg', hb, hlt⟩ := c.allocSlot.2.addBinding_spec
    { name, slot := c.allocSlot.1, tag, prim, isArg, method := c.allocSlot.2.scope.method, clearRoot := c.allocSlot.2.scope.clearRoot } ht rfl
    (hm ▸ hs)
  refine ⟨ht', hg.trans hg', fun r hr hf => ⟨?_, fun m hm => ?_⟩, hlt⟩
  · exact Nat.le_trans hf (Nat.le_of_eq (congrArg Binding.slot hb).symm)
  · exact (congrArg Binding.method hb).trans (hr.symm.trans hm)

/-- The name of a method's object belongs to the method. -/
theorem registerThis_spec (c : Context) (name : Symbol) (tag : Option String) (h : c.Tidy) :
    (c.registerThis name tag).2.Tidy ∧ c.Grows (c.registerThis name tag).2 := by
  obtain ⟨ht, hg, _⟩ := c.addBinding_spec {
    name, slot := 0, tag, prim := none, isArg := false, method := c.scope.method
    clearRoot := c.scope.clearRoot, canBeCleared := false } h rfl fun _ _ => Nat.zero_le _
  exact ⟨ht, hg⟩

theorem addMethod_spec (c : Context) (obj : Nat) (parent : Option Nat) (h : c.Tidy) : (c.addMethod obj parent).2.Tidy ∧
    c.Grows (c.addMethod obj parent).2 ∧ (c.addMethod obj parent).1 < (c.addMethod obj parent).2.methods.size := by
  have hgrows : c.Grows (c.addMethod obj parent).2 := by
    refine ⟨Nat.le_refl _, fun _ _ => rfl, fun _ => Nat.le_refl _, fun _ h => h, fun m => ?_, ?_⟩
    · simp only [addMethod, method, Array.getElem?_push]
      split
      · rename_i he
        rw [he, Array.getElem?_eq_none (Nat.le_refl _)]
        exact Nat.le_refl _
      · exact Nat.le_refl _
    · simp only [addMethod, Array.size_push]
      exact Nat.le_succ _
  refine ⟨⟨⟨fun b m hb => Nat.le_trans (h.orderly.roomy b m hb) (hgrows.slots m), h.orderly.closes⟩, h.env,
    hgrows.admits h.admits⟩, hgrows, ?_⟩
  simp only [addMethod, Array.size_push]
  exact Nat.lt_succ_self _

end Context

/-! ## Analyses -/

/-- Whether there is a result. -/
def Result.isOk {α : Type} : Result α → Bool
  | .ok _ => true
  | .error _ | .cut => false

theorem Result.exists_of_isOk {α : Type} {r : Result α} (h : r.isOk = true) : ∃ a, r = .ok a := by
  cases r with
  | ok a => exact ⟨a, rfl⟩
  | error e => cases h
  | cut => cases h

theorem Result.exists_of_isOk_fst {α σ : Type} {p : Result α × σ} (h : p.1.isOk = true) : ∃ a s, p = (.ok a, s) := by
  obtain ⟨r, s⟩ := p
  obtain ⟨a, rfl⟩ := exists_of_isOk h
  exact ⟨a, s, rfl⟩

namespace Analysis

variable {α β : Type}

theorem bind_eq_ok {x : Analysis α} {f : α → Analysis β} {c c' : Context} {b : β} (h : (x >>= f) c = (.ok b, c')) :
    ∃ a c₁, x c = (.ok a, c₁) ∧ f a c₁ = (.ok b, c') := by
  change Analysis.bind x f c = (.ok b, c') at h
  unfold Analysis.bind at h
  split at h
  · rename_i a c₁ hx
    exact ⟨a, c₁, hx, h⟩
  · cases h
  · cases h

theorem bind_of_ok {x : Analysis α} {f : α → Analysis β} {c c' : Context} {a : α} (h : x c = (.ok a, c')) : (x >>= f) c = f a c' := by
  change Analysis.bind x f c = _
  rw [Analysis.bind, h]

theorem bind_scope (f : Scope → Analysis β) (c : Context) : (scope >>= f) c = f c.scope c := rfl

theorem bind_world (f : World → Analysis β) (c : Context) : (world >>= f) c = f c.world c := rfl

theorem bind_lookupLocal? (name : Symbol) (f : Option Nat → Analysis β) (c : Context) :
    (lookupLocal? name >>= f) c = f (c.lookupLocal? name) c := rfl

theorem bind_of_error {x : Analysis α} {f : α → Analysis β} {c c' : Context} {e : CompileError} (h : x c = (.error e, c')) : (x >>= f) c = (.error e, c') := by
  change Analysis.bind x f c = _
  rw [Analysis.bind, h]

theorem bind_of_cut {x : Analysis α} {f : α → Analysis β} {c c' : Context} (h : x c = (.cut, c')) : (x >>= f) c = (.cut, c') := by
  change Analysis.bind x f c = _
  rw [Analysis.bind, h]

theorem length_of_forList {f : α → Analysis β} : ∀ {as : List α} {bs : List β} {c c' : Context}, forList f as c = (.ok bs, c') → bs.length = as.length
  | [], _, _, _, h => by
    cases h
    rfl
  | a :: as, _, c, c', h => by
    obtain ⟨b, c₁, _, h⟩ := bind_eq_ok h
    obtain ⟨bs, c₂, hbs, h⟩ := bind_eq_ok h
    cases h
    exact congrArg (· + 1) (length_of_forList hbs)

/-- From a tidy context at the place, the analysis keeps the tables in order, and its result is as said there and
ever after. -/
def Leads (p : Place) (c : Context) (x : Analysis α) (Q : α → Context → Prop) : Prop :=
  c.Tidy → c.At p → ∀ (a : α) (c' : Context), x c = (.ok a, c') →
    c'.Orderly ∧ c.Grows c' ∧ ∀ c'', c'.Grows c'' → Q a c''

/-- It also comes back to the place. -/
def Yields (p : Place) (c : Context) (x : Analysis α) (Q : α → Context → Prop) : Prop :=
  c.Tidy → c.At p → ∀ (a : α) (c' : Context), x c = (.ok a, c') →
    c'.Tidy ∧ c.Grows c' ∧ c'.At p ∧ ∀ c'', c'.Grows c'' → Q a c''

section

variable {p : Place} {c : Context} {x : Analysis α} {f : α → Analysis β} {Q : α → Context → Prop} {R : β → Context → Prop}

theorem Yields.mono {Q' : α → Context → Prop} (h : Yields p c x Q) (hq : ∀ a c'', Q a c'' → Q' a c'') : Yields p c x Q' := by
  intro ht hp a c' hx
  obtain ⟨ht', hg, hp', hQ⟩ := h ht hp a c' hx
  exact ⟨ht', hg, hp', fun c'' hg' => hq a c'' (hQ c'' hg')⟩

theorem Leads.mono {Q' : α → Context → Prop} (h : Leads p c x Q) (hq : ∀ a c'', Q a c'' → Q' a c'') : Leads p c x Q' := by
  intro ht hp a c' hx
  obtain ⟨hr, hg, hQ⟩ := h ht hp a c' hx
  exact ⟨hr, hg, fun c'' hg' => hq a c'' (hQ c'' hg')⟩

theorem Yields.leads (h : Yields p c x Q) : Leads p c x Q := by
  intro ht hp a c' hx
  obtain ⟨ht', hg, _, hQ⟩ := h ht hp a c' hx
  exact ⟨ht'.orderly, hg, hQ⟩

theorem yields_pure {a : α} (h : ∀ c'', c.Grows c'' → Q a c'') : Yields p c (Pure.pure a : Analysis α) Q := by
  intro ht hp a' c' hx
  cases hx
  exact ⟨ht, .refl c, hp, h⟩

theorem yields_fail (e : CompileFault) : Yields p c (fail e : Analysis α) Q := fun _ _ _ _ hx => by cases hx

theorem yields_cut : Yields p c (cut : Analysis α) Q := fun _ _ _ _ hx => by cases hx

/-- One analysis after the other; what is known of the first result is known at the end. -/
theorem yields_bind_after (hx : Yields p c x Q) (hf : ∀ a c₁, c.Grows c₁ → (∀ c'', c₁.Grows c'' → Q a c'') →
    Yields p c₁ (f a) fun b c'' => Q a c'' → R b c'') : Yields p c (x >>= f) R := by
  intro ht hp b c' h
  obtain ⟨a, c₁, h₁, h₂⟩ := bind_eq_ok h
  obtain ⟨ht₁, hg₁, hp₁, hQ⟩ := hx ht hp a c₁ h₁
  obtain ⟨ht₂, hg₂, hp₂, hR⟩ := hf a c₁ hg₁ hQ ht₁ hp₁ b c' h₂
  exact ⟨ht₂, hg₁.trans hg₂, hp₂, fun c'' hc => hR c'' hc (hQ c'' (hg₂.trans hc))⟩

/-- The second analysis does not depend on what was known before. -/
theorem yields_bind (hx : Yields p c x Q)
    (hf : ∀ a c₁, (∀ c'', c₁.Grows c'' → Q a c'') → Yields p c₁ (f a) fun b c'' => Q a c'' → R b c'') : Yields p c (x >>= f) R :=
  yields_bind_after hx fun a c₁ _ => hf a c₁

theorem leads_bind (hx : Yields p c x Q)
    (hf : ∀ a c₁, (∀ c'', c₁.Grows c'' → Q a c'') → Leads p c₁ (f a) fun b c'' => Q a c'' → R b c'') : Leads p c (x >>= f) R := by
  intro ht hp b c' h
  obtain ⟨a, c₁, h₁, h₂⟩ := bind_eq_ok h
  obtain ⟨ht₁, hg₁, hp₁, hQ⟩ := hx ht hp a c₁ h₁
  obtain ⟨hr, hg₂, hR⟩ := hf a c₁ hQ ht₁ hp₁ b c' h₂
  exact ⟨hr, hg₁.trans hg₂, fun c'' hc => hR c'' hc (hQ c'' (hg₂.trans hc))⟩

/-- What only looks at the context. -/
theorem yields_read {g : Context → α} (h : Yields p c (f (g c)) R) : Yields p c (read g >>= f) R := h

theorem leads_read {g : Context → α} (h : Leads p c (f (g c)) R) : Leads p c (read g >>= f) R := h

theorem yields_ofExcept {e : Except CompileFault α} (h : ∀ a, e = .ok a → Yields p c (f a) R) : Yields p c (ofExcept e >>= f) R := by
  cases e with
  | ok a => exact h a rfl
  | error e => exact fun _ _ _ _ hx => by cases hx

theorem leads_ofExcept {e : Except CompileFault α} (h : ∀ a, e = .ok a → Leads p c (f a) R) : Leads p c (ofExcept e >>= f) R := by
  cases e with
  | ok a => exact h a rfl
  | error e => exact fun _ _ _ _ hx => by cases hx

/-- What is known at the start is known at the end. -/
theorem yields_knowing {P : Context → Prop} (hP : ∀ c'', c.Grows c'' → P c'') (h : Yields p c x fun a c'' => P c'' → Q a c'') :
    Yields p c x Q := by
  intro ht hp a c' hx
  obtain ⟨ht', hg, hp', hQ⟩ := h ht hp a c' hx
  exact ⟨ht', hg, hp', fun c'' hc => hQ c'' hc (hP c'' (hg.trans hc))⟩

/-- The context is tidy at the start. -/
theorem yields_tidy (h : c.Tidy → c.At p → Yields p c x Q) : Yields p c x Q := fun ht hp => h ht hp ht hp

/-! ## Calm steps -/

/-- An analysis that changes neither slots nor places nor the kinds of locals, and whose result is as said. -/
def Calm (x : Analysis α) (P : α → Prop) : Prop := ∀ c a c', x c = (.ok a, c') → c.Quiet c' ∧ P a

theorem Calm.yields {P : α → Prop} (h : Calm x P) : Yields p c x fun a _ => P a := by
  intro ht hp a c' hx
  obtain ⟨hm, ha⟩ := h c a c' hx
  exact ⟨hm.tidy ht, hm.grows, hm.at hp, fun _ _ => ha⟩

theorem yields_calm {P : α → Prop} (hx : Calm x P) (hf : ∀ a c₁, P a → Yields p c₁ (f a) R) : Yields p c (x >>= f) R :=
  yields_bind hx.yields fun a c₁ ha => (hf a c₁ (ha c₁ (.refl c₁))).mono fun _ _ h _ => h

theorem leads_calm {P : α → Prop} (hx : Calm x P) (hf : ∀ a c₁, P a → Leads p c₁ (f a) R) : Leads p c (x >>= f) R :=
  leads_bind hx.yields fun a c₁ ha => (hf a c₁ (ha c₁ (.refl c₁))).mono fun _ _ h _ => h

/-- What is known before a calm step is known after it. -/
theorem yields_calm_after {P : α → Prop} (hx : Calm x P) (hf : ∀ a c₁, c.Grows c₁ → P a → Yields p c₁ (f a) R) :
    Yields p c (x >>= f) R :=
  yields_bind_after hx.yields fun a c₁ hc ha => (hf a c₁ hc (ha c₁ (.refl c₁))).mono fun _ _ h _ => h

/-- A calm step that may be left out. -/
theorem yields_if {b : Prop} [Decidable b] {y : Analysis PUnit} {z : Analysis β} (hy : Calm y fun _ => True)
    (hz : ∀ c, Yields p c z R) : Yields p c (if b then y >>= fun _ => z else z) R := by
  split
  · exact yields_calm hy fun _ c₁ _ => hz c₁
  · exact hz c

section

variable {P P' : α → Prop} {S : β → Prop}

theorem Calm.mono (h : Calm x P) (hp : ∀ a, P a → P' a) : Calm x P' := fun c a c' hx => ⟨(h c a c' hx).1, hp a (h c a c' hx).2⟩

theorem calm_pure {a : α} (h : P a) : Calm (Pure.pure a : Analysis α) P := by
  intro c a' c' hx
  cases hx
  exact ⟨.refl c, h⟩

theorem calm_fail (e : CompileFault) : Calm (fail e : Analysis α) P := fun _ _ _ hx => by cases hx

theorem calm_bind (hx : Calm x P) (hf : ∀ a, P a → Calm (f a) S) : Calm (x >>= f) S := by
  intro c b c' h
  obtain ⟨a, c₁, h₁, h₂⟩ := bind_eq_ok h
  obtain ⟨hm₁, ha⟩ := hx c a c₁ h₁
  obtain ⟨hm₂, hb⟩ := hf a ha c₁ b c' h₂
  exact ⟨hm₁.trans hm₂, hb⟩

/-- The result of the first step does not matter. -/
theorem calm_then (hx : Calm x fun _ => True) (hf : ∀ a, Calm (f a) S) : Calm (x >>= f) S := calm_bind hx fun a _ => hf a

theorem calm_read (g : Context → α) : Calm (read g) fun _ => True := by
  intro c a c' hx
  cases hx
  exact ⟨.refl c, trivial⟩

theorem calm_ofExcept {e : Except CompileFault α} : Calm (ofExcept e) fun a => e = .ok a := by
  cases e with
  | ok a => exact calm_pure rfl
  | error e => exact calm_fail e

theorem calm_modify {g : Context → Context} (h : ∀ c : Context, c.Quiet (g c)) : Calm (modify g) fun _ => True := by
  intro c a c' hx
  cases hx
  exact ⟨h c, trivial⟩

theorem calm_change {g : Context → α × Context} (h : ∀ c : Context, c.Quiet (g c).2) : Calm (change g) fun _ => True := by
  intro c a c' hx
  cases hx
  exact ⟨h c, trivial⟩

theorem calm_changeWorld (g : World → α × World) : Calm (changeWorld g) fun _ => True := by
  intro c a c' hx
  cases hx
  exact ⟨Context.quiet_of_eq rfl rfl rfl rfl, trivial⟩

theorem calm_warn (kind : WarningKind) (message : String) : Calm (warn kind message) fun _ => True :=
  calm_modify fun _ => Context.quiet_of_eq rfl rfl rfl rfl

theorem calm_addPath (kind : PathKind) (parent : Option Nat) : Calm (addPath kind parent) fun _ => True :=
  calm_change fun _ => Context.quiet_of_eq rfl rfl rfl rfl

theorem calm_forList {f : α → Analysis β} (hf : ∀ a, Calm (f a) S) (as : List α) :
    Calm (forList f as) fun bs => bs.length = as.length ∧ ∀ b ∈ bs, S b := by
  induction as with
  | nil => exact calm_pure ⟨rfl, fun _ h => by cases h⟩
  | cons a as ih =>
    refine calm_bind (hf a) fun b hb => calm_bind ih fun bs hbs => calm_pure ⟨?_, ?_⟩
    · rw [List.length_cons, List.length_cons, hbs.1]
    · exact List.forall_mem_cons.2 ⟨hb, hbs.2⟩

end

/-! ## Scopes -/

/-- The scope is put back. -/
theorem yields_nested (h : Leads p c x Q) : Yields p c (nested x) Q := by
  intro ht hp a c' hx
  simp only [nested, Prod.mk.injEq] at hx
  obtain ⟨hr, rfl⟩ := hx
  obtain ⟨horderly, hg, hQ⟩ := h ht hp a (x c).2 (Prod.ext hr rfl)
  have hg' : c.Grows { (x c).2 with scope := c.scope } := ⟨hg.size, hg.owner, hg.slot, hg.used, hg.slots, hg.methods⟩
  refine ⟨⟨⟨horderly.roomy, horderly.closes⟩, fun e he => Nat.lt_of_lt_of_le (ht.env e he) hg.size, hg'.admits ht.admits⟩, hg', hp,
    fun c'' hc => hQ c'' ⟨hc.size, hc.owner, hc.slot, hc.used, hc.slots, hc.methods⟩⟩

/-- The analysis goes on at another place, where no other locals are visible. -/
theorem leads_modifyScope {g : Scope → Scope} {q : Place} {z : PUnit → Analysis β} (hp : c.At p → (c.modifyScope g).At q)
    (he : ∀ e ∈ (g c.scope).env, e ∈ c.scope.env) (ha : c.Tidy → c.At p → c.Admits q)
    (hz : ∀ c₁, c.Grows c₁ → c₁.Grows c → Leads q c₁ (z ⟨⟩) R) : Leads p c (modifyScope g >>= z) R := by
  intro ht hp₀ b c' h
  have hg : c.Grows (c.modifyScope g) :=
    ⟨Nat.le_refl _, fun _ _ => rfl, fun _ => Nat.le_refl _, fun _ h => h, fun _ => Nat.le_refl _, Nat.le_refl _⟩
  have hback : (c.modifyScope g).Grows c :=
    ⟨Nat.le_refl _, fun _ _ => rfl, fun _ => Nat.le_refl _, fun _ h => h, fun _ => Nat.le_refl _, Nat.le_refl _⟩
  have hadmits : (c.modifyScope g).Admits q := hg.admits (ha ht hp₀)
  have htidy : (c.modifyScope g).Tidy := by
    obtain ⟨floor, _, hq⟩ := hp hp₀
    rw [← hq] at hadmits
    exact ⟨⟨ht.orderly.roomy, ht.orderly.closes⟩, fun e hx => ht.env e (he e hx), hadmits.method, hadmits.loop⟩
  obtain ⟨hr, hg', hR⟩ := hz (c.modifyScope g) hg hback htidy (hp hp₀) b c' h
  exact ⟨hr, hg.trans hg', hR⟩

/-- What exists where the analysis is. -/
theorem admits_at (ht : c.Tidy) (hp : c.At p) : c.Admits p := by
  obtain ⟨floor, _, rfl⟩ := hp
  exact ⟨ht.admits.method, ht.admits.loop⟩

/-- An arm of a choice is at the place of the choice. -/
theorem yields_arm {branch : Nat} (h : ∀ c, Yields p c x Q) : Yields p c (arm branch x) Q := by
  refine yields_nested (leads_calm (calm_addPath _ _) fun path c₁ _ => ?_)
  exact leads_modifyScope (fun hp => hp) (fun _ h => h) admits_at fun c₂ _ _ => (h c₂).leads

theorem yields_located (h : Yields p c x Q) : Yields p c (located x) Q := by
  intro ht hp a c' hx
  unfold located at hx
  dsimp only at hx
  split at hx
  · cases hx
  · exact h ht hp a c' hx

/-- A new local belongs to the method. -/
theorem yields_registerLocal (name : Symbol) (tag : Option String) (prim : Option Prim) (isArg : Bool) :
    Yields p c (registerLocal name tag prim isArg) fun b c'' => c''.Owns p.room b ∧ b < c''.bindings.size := by
  rintro ht ⟨floor, hn, rfl⟩ b c' hx
  cases hx
  obtain ⟨ht', hg, ho, hlt⟩ := c.registerLocal_spec name tag prim isArg ht
  exact ⟨ht', hg, ⟨floor, Nat.le_succ_of_le hn, rfl⟩, fun c'' hc => ⟨hc.owns (ho _ rfl hn), Nat.lt_of_lt_of_le hlt hc.size⟩⟩

/-- A use of a local that exists. -/
theorem yields_referenceLocal {x : Nat} (hx : x < c.bindings.size) (tag : Option String) :
    Yields p c (referenceLocal x tag) fun r c'' => c''.Lasts p.room r.binding := by
  rintro ht ⟨floor, hn, rfl⟩ r c' h
  change (Result.ok (c.referenceLocal x tag).1, (c.referenceLocal x tag).2) = (.ok r, c') at h
  obtain ⟨hok, rfl⟩ := Prod.mk.inj h
  obtain rfl := Result.ok.inj hok
  obtain ⟨hmild, hr, hb⟩ := Context.referenceLocal_spec hx tag
  refine ⟨hmild.tidy ht, hmild.grows, hmild.at ⟨floor, hn, rfl⟩, fun c'' hc => hc.lasts ⟨?_, fun hh m hm hmethod => ?_⟩⟩
  · rw [hr, hmild.size]
    exact hx
  · rw [hr] at hmethod ⊢
    rw [hmild.owner] at hmethod
    rw [hb]
    exact Context.closeOver_used hx hh hm hmethod

/-- A slot is kept: what follows uses the slots above it. -/
theorem yields_reserve {f : Nat → Analysis β}
    (hf : ∀ slot c₁, Yields (p.above (slot + 1)) c₁ (f slot) fun b c'' => c''.Holds p.room slot → R b c'') :
    Yields p c (change Context.allocSlot >>= f) R := by
  rintro ht ⟨floor, hn, rfl⟩ b c' h
  obtain ⟨ht₁, hg₁, hs⟩ := c.allocSlot_spec ht
  obtain ⟨ht', hg, ⟨floor', hn', hp⟩, hR⟩ := hf c.allocSlot.1 c.allocSlot.2 ht₁ ⟨_, Nat.le_refl _, rfl⟩ b c' h
  have hfloor : floor' = c.scope.nextSlot + 1 := congrArg (·.room.floor) hp
  rw [hfloor] at hn'
  refine ⟨ht', hg₁.trans hg, ⟨floor, ?_, ?_⟩, fun c'' hc => hR c'' hc ?_⟩
  · exact Nat.le_trans (Nat.le_succ_of_le hn) hn'
  · exact congrArg (·.above floor) hp
  · exact (hg.trans hc).holds ⟨hn, hs⟩

/-- A change that leaves alone who owns which slot. -/
theorem yields_modify {g : Context → Context} (h : c.Mild (g c)) : Yields p c (modify g) fun _ _ => True := by
  rintro ht hp _ c' hx
  cases hx
  exact ⟨h.tidy ht, h.grows, h.at hp, fun _ _ => trivial⟩

theorem yields_registerThis (name : Symbol) (tag : Option String) : Yields p c (change (·.registerThis name tag)) fun _ _ => True := by
  rintro ht hp b c' hx
  cases hx
  obtain ⟨ht', hg⟩ := c.registerThis_spec name tag ht
  exact ⟨ht', hg, hp, fun _ _ => trivial⟩

theorem yields_addMethod (obj : Nat) (parent : Option Nat) :
    Yields p c (change (·.addMethod obj parent)) fun m c'' => m < c''.methods.size := by
  rintro ht hp m c' hx
  cases hx
  obtain ⟨ht', hg, hm⟩ := c.addMethod_spec obj parent ht
  exact ⟨ht', hg, hp, fun c'' hc => Nat.lt_of_lt_of_le hm hc.methods⟩

theorem yields_forList_after {f : α → Analysis β} {Q : α → β → Context → Prop} {as : List α}
    (hf : ∀ a ∈ as, ∀ c₁, c.Grows c₁ → Yields p c₁ (f a) (Q a)) : Yields p c (forList f as) fun bs c'' =>
      bs.length = as.length ∧ ∀ b ∈ bs, ∃ a ∈ as, Q a b c'' := by
  induction as generalizing c with
  | nil => exact yields_pure fun _ _ => ⟨rfl, fun b hb => by cases hb⟩
  | cons a as ih =>
    refine yields_bind_after (hf a List.mem_cons_self c (.refl c)) fun b c₁ hc _ => ?_
    refine yields_bind (ih fun a ha c₂ hc₂ => hf a (List.mem_cons_of_mem _ ha) c₂ (hc.trans hc₂)) fun bs _ _ => yields_pure fun c'' _ hbs hb => ?_
    refine ⟨by rw [List.length_cons, List.length_cons, hbs.1], fun b' hb' => ?_⟩
    rcases List.mem_cons.1 hb' with rfl | hb'
    · exact ⟨a, List.mem_cons_self, hb⟩
    · obtain ⟨a', ha', hq⟩ := hbs.2 b' hb'
      exact ⟨a', List.mem_cons_of_mem _ ha', hq⟩

theorem yields_forList {f : α → Analysis β} {Q : α → β → Context → Prop} {as : List α}
    (hf : ∀ a ∈ as, ∀ c, Yields p c (f a) (Q a)) : Yields p c (forList f as) fun bs c'' =>
      bs.length = as.length ∧ ∀ b ∈ bs, ∃ a ∈ as, Q a b c'' := yields_forList_after fun a ha c₁ _ => hf a ha c₁

theorem yields_forM {f : α → Analysis PUnit} (hf : ∀ a c, Yields p c (f a) fun _ _ => True) (as : List α) :
    Yields p c (as.forM f) fun _ _ => True := by
  induction as generalizing c with
  | nil => exact yields_pure fun _ _ => trivial
  | cons a as ih =>
    rw [List.forM_eq_forM, List.forM_cons]
    exact yields_bind (hf a c) fun _ _ _ => ih.mono fun _ _ _ _ => trivial

end

end Analysis

end LispMachine
