import LispMachine.Proofs.Class.Ancestry
import LispMachine.Proofs.Sites.Cell
import LispMachine.Proofs.World.Linked
/-!
# What call sites rely on

`Grows` says what may happen between two uses of a call site: dispatchers are added but never replaced, a
type keeps its fields, and a protocol that finds something else has another generation.  What a site
remembers stays right as the world grows, so the invariant of all sites (`Wired`) has to be looked at only
where a site remembers something new.

Every change of the wiring is of this kind, and so is loading, however far it gets.
-/
namespace LispMachine

namespace World

/-- The protocol under a number. -/
def protocolAt (w : World) (p : Nat) : Protocol := (w.protocols[p]?).getD default

/-- The field of a type that a name stands for. -/
def fieldIndex? (w : World) (type : ClassId) (name : String) : Option Nat := (w.typeDef? type).bind (·.fieldIndex? name)

/-- What call sites have found in the one world holds in the other. -/
structure Grows (w w' : World) : Prop where
  dispatchers : ∀ (id : Nat) (d : Dispatcher), w.dispatchers.entries[id]? = some d → w'.dispatchers.entries[id]? = some d
  fields : ∀ type name i, w.fieldIndex? type name = some i → w'.fieldIndex? type name = some i
  generation : ∀ p, (w.protocolAt p).generation ≤ (w'.protocolAt p).generation
  found : ∀ p, (w'.protocolAt p).generation = (w.protocolAt p).generation → ∀ method type,
    (w'.protocolAt p).find? method type w'.classes = (w.protocolAt p).find? method type w.classes

theorem Grows.refl (w : World) : Grows w w := ⟨fun _ _ h => h, fun _ _ _ h => h, fun _ => Nat.le_refl _, fun _ _ _ _ => rfl⟩

theorem Grows.trans {w₁ w₂ w₃ : World} (h : Grows w₁ w₂) (h' : Grows w₂ w₃) : Grows w₁ w₃ where
  dispatchers id d hd := h'.dispatchers id d (h.dispatchers id d hd)
  fields type name i hi := h'.fields type name i (h.fields type name i hi)
  generation p := Nat.le_trans (h.generation p) (h'.generation p)
  found p hp method type := by
    have h₁ := h.generation p
    have h₂ := h'.generation p
    exact (h'.found p (by omega) method type).trans (h.found p (by omega) method type)

theorem Grows.size_le {w w' : World} (h : Grows w w') : w.dispatchers.entries.size ≤ w'.dispatchers.entries.size := by
  by_contra hlt
  have hlt : w'.dispatchers.entries.size < w.dispatchers.entries.size := by omega
  have hd := h.dispatchers _ _ (Array.getElem?_eq_getElem hlt)
  rw [Array.getElem?_eq_none (Nat.le_refl _)] at hd
  cases hd

theorem grows_of_wiring {w w' : World} (h : w'.wiring = w.wiring) : Grows w w' := by
  obtain ⟨_, hc, hp, hd⟩ := wiring_eq_iff.1 h
  refine ⟨fun _ _ h => hd ▸ h, fun _ _ _ h => ?_, fun p => ?_, fun p _ _ _ => ?_⟩
  · simpa only [fieldIndex?, typeDef?, hc] using h
  · simp only [protocolAt, hp, Nat.le_refl]
  · simp only [protocolAt, hp, hc]

end World

/-! ## Sites -/

/-- The dispatcher under the number reads a field only if the keyword names that field of the class. -/
def World.Looks (w : World) (k : Keyword) (type : ClassId) (d : Nat) : Prop :=
  ∃ x, w.dispatchers.entries[d]? = some x ∧ ∀ i, x = .field i → k.ns = none ∧ w.fieldIndex? type k.name = some i

/-- The remembered dispatcher looks the keyword up in instances of the remembered class. -/
def KeywordSite.Fits (w : World) (c : KeywordSite) : Prop := c.site.Holds fun t d => w.Looks c.keyword t.toNat d.toNat

/-- What the site remembers under the generation of the protocol is what the protocol finds. -/
def ProtocolSite.Fits (w : World) (c : ProtocolSite) : Prop :=
  c.site.Holds fun t d => c.generation ≤ (w.protocolAt c.protocol).generation ∧
    (c.generation = (w.protocolAt c.protocol).generation →
      (w.protocolAt c.protocol).find? c.method t.toNat w.classes = some d.toNat)

section

variable {w w' : World}

theorem World.Looks.grow {k : Keyword} {type : ClassId} {d : Nat} (h : w.Looks k type d) (hg : w.Grows w') : w'.Looks k type d := by
  obtain ⟨x, hx, hf⟩ := h
  refine ⟨x, hg.dispatchers _ _ hx, fun i hi => ?_⟩
  obtain ⟨hns, hfield⟩ := hf i hi
  exact ⟨hns, hg.fields _ _ _ hfield⟩

theorem KeywordSite.Fits.grow {c : KeywordSite} (h : c.Fits w) (hg : w.Grows w') : c.Fits w' := h.mono fun _ _ h => h.grow hg

theorem ProtocolSite.Fits.grow {c : ProtocolSite} (h : c.Fits w) (hg : w.Grows w') : c.Fits w' := by
  refine h.mono fun t d ⟨hle, hf⟩ => ?_
  have hgen := hg.generation c.protocol
  refine ⟨Nat.le_trans hle hgen, fun heq => ?_⟩
  rw [hg.found c.protocol (by omega)]
  exact hf (by omega)

end

/-- The sites of the unit fit. -/
structure LoadedUnit.Fits (w : World) (l : LoadedUnit) : Prop where
  keywords : ∀ (s : Nat) (c : KeywordSite), l.keywordSites[s]? = some c → c.Fits w
  protocols : ∀ (s : Nat) (c : ProtocolSite), l.protocolSites[s]? = some c → c.Fits w

theorem LoadedUnit.Fits.grow {w w' : World} {l : LoadedUnit} (h : l.Fits w) (hg : w.Grows w') : l.Fits w' :=
  ⟨fun s c hc => (h.keywords s c hc).grow hg, fun s c hc => (h.protocols s c hc).grow hg⟩

namespace World

/-- Call sites may rely on what they remember. -/
structure Wired (w : World) : Prop where
  classes : w.classes.Grounded
  lookup : w.dispatchers.entries[DispatcherTable.lookupId]? = some .lookup
  fields : ∀ type i id, w.dispatchers.fields.lookup (type, i) = some id → w.dispatchers.entries[id]? = some (.field i)
  impls : ∀ p, ∀ impl ∈ (w.protocolAt p).impls, impl.2.2 < w.dispatchers.entries.size
  units : w.AllUnits (·.Fits w)

theorem AllUnits.grow {w w' : World} (h : w.AllUnits (·.Fits w)) (hu : w'.units = w.units) (hg : w.Grows w') :
    w'.AllUnits (·.Fits w') :=
  AllUnits.of_eq (fun k l hl => (h k l hl).grow hg) hu

/-! ## Registration -/

section

variable {w : World}

theorem protocolAt_registerImpl (w : World) (p : Nat) (method : String) (type : ClassId) (d : Dispatcher) (q : Nat) :
    (w.registerImpl p method type d).protocolAt q =
      if p = q ∧ q < w.protocols.size then (w.protocolAt q).register method type w.dispatchers.entries.size else w.protocolAt q := by
  simp only [protocolAt, registerImpl, DispatcherTable.register, Array.getElem?_modify]
  by_cases hq : q < w.protocols.size
  · by_cases hp : p = q <;> simp [hq, hp]
  · by_cases hp : p = q <;> simp [hq, hp]

theorem grows_registerImpl (w : World) (p : Nat) (method : String) (type : ClassId) (d : Dispatcher) :
    Grows w (w.registerImpl p method type d) := by
  refine ⟨fun id d' h => ?_, fun _ _ _ h => h, fun q => ?_, fun q hq m t => ?_⟩
  · simp only [registerImpl, DispatcherTable.register, Array.getElem?_push]
    rw [if_neg (Nat.ne_of_lt (Array.getElem?_eq_some_iff.1 h).1)]
    exact h
  · rw [protocolAt_registerImpl]
    split
    · exact Nat.le_succ _
    · exact Nat.le_refl _
  · rw [protocolAt_registerImpl] at hq ⊢
    split at hq
    · simp [Protocol.register] at hq
    · rename_i hpq
      rw [if_neg hpq]
      rfl

theorem mem_impls_register {p : Protocol} {method : String} {type : ClassId} {n : Nat} {impl : String × ClassId × Nat}
    (h : impl ∈ (p.register method type n).impls) : impl = (method, type, n) ∨ impl ∈ p.impls := by
  rcases List.mem_cons.1 h with h | h
  · exact .inl h
  · exact .inr (List.mem_filter.1 h).1

theorem Wired.registerImpl (hw : w.Wired) (p : Nat) (method : String) (type : ClassId) (d : Dispatcher) :
    (w.registerImpl p method type d).Wired := by
  have hg := grows_registerImpl w p method type d
  have hsize : (w.registerImpl p method type d).dispatchers.entries.size = w.dispatchers.entries.size + 1 := Array.size_push ..
  refine ⟨hw.classes, hg.dispatchers _ _ hw.lookup, fun t i id h => hg.dispatchers _ _ (hw.fields t i id h), fun q impl hi => ?_,
    hw.units.grow rfl hg⟩
  rw [hsize]
  rw [protocolAt_registerImpl] at hi
  split at hi
  · obtain rfl | hi := mem_impls_register hi
    · exact Nat.lt_succ_self _
    · exact Nat.lt_succ_of_lt (hw.impls q impl hi)
  · exact Nat.lt_succ_of_lt (hw.impls q impl hi)

/-! ## Classes -/

theorem grows_declareType (hw : w.Wired) (name : String) (fields : List Capture) (reified : Bool) :
    Grows w (w.declareType name fields reified).2 := by
  refine ⟨fun _ _ h => h, fun type n i h => ?_, fun _ => Nat.le_refl _, fun p _ method type => ?_⟩
  · have hne : type ≠ w.classes.nextId := by
      rintro rfl
      rw [fieldIndex?, typeDef?, ClassTable.get?_nextId] at h
      cases h
    simp only [fieldIndex?, typeDef?, declareType, ClassTable.get?_insert_eq, if_neg hne]
    exact h
  · exact Protocol.find?_congr _ _ fun target => ClassTable.isSubclassWithin_insert hw.classes rfl rfl _ _ _

theorem Wired.declareType (hw : w.Wired) (name : String) (fields : List Capture) (reified : Bool) :
    (w.declareType name fields reified).2.Wired := by
  have hnew : w.classes.nextId ≠ ClassId.object := Nat.ne_of_gt (Nat.lt_of_lt_of_le (by decide) (Nat.le_max_right _ _))
  refine ⟨hw.classes.insert (fun s hs => List.mem_singleton.1 hs ▸ (by decide)) fun h => absurd h hnew, hw.lookup, hw.fields, hw.impls, ?_⟩
  exact hw.units.grow rfl (grows_declareType hw name fields reified)

/-- The world after a type got its methods. -/
def withMethods (w : World) (id : ClassId) (unit : Nat) : World :=
  { w with classes := w.classes.modify id fun c =>
    { c with declared := c.declared.map fun d => { d with methods := some unit } } }

theorem supers_withMethods (w : World) (id : ClassId) (unit : Nat) (type : ClassId) :
    (w.withMethods id unit).classes.supers type = w.classes.supers type := by
  unfold withMethods
  exact ClassTable.supers_modify _ (by intro c; rfl) _ _

theorem grows_withMethods (w : World) (id : ClassId) (unit : Nat) : Grows w (w.withMethods id unit) := by
  refine ⟨fun _ _ h => h, fun type n i h => ?_, fun _ => Nat.le_refl _, fun p _ method type => ?_⟩
  · simp only [fieldIndex?, typeDef?, withMethods, ClassTable.get?_modify_eq] at h ⊢
    cases hc : w.classes.get? type with
    | none =>
      rw [hc] at h
      cases h
    | some c =>
      rw [hc] at h
      split
      · cases hd : c.declared with
        | none => simp [hd] at h
        | some d =>
          simp only [Option.bind_some, hd] at h
          simp only [Option.map_some, Option.bind_some, hd]
          exact h
      · exact h
  · exact Protocol.find?_congr _ _ fun target => ClassTable.isSubclassWithin_congr (supers_withMethods w id unit) _ _ _

theorem Wired.withMethods (hw : w.Wired) (id : ClassId) (unit : Nat) : (w.withMethods id unit).Wired :=
  ⟨hw.classes.congr (supers_withMethods w id unit), hw.lookup, hw.fields, hw.impls,
    hw.units.grow rfl (grows_withMethods w id unit)⟩

/-! ## Protocols and units -/

theorem protocolAt_push (w : World) (p : Protocol) (q : Nat) :
    ({ w with protocols := w.protocols.push p } : World).protocolAt q =
      if q = w.protocols.size then p else w.protocolAt q := by
  simp only [protocolAt, Array.getElem?_push]
  split <;> rfl

theorem protocolAt_size (w : World) : w.protocolAt w.protocols.size = default := by
  rw [protocolAt, Array.getElem?_eq_none (Nat.le_refl _)]
  rfl

theorem grows_pushProtocol (w : World) (name : Symbol) (methods : List String) :
    Grows w { w with protocols := w.protocols.push { name, methods } } := by
  refine ⟨fun _ _ h => h, fun _ _ _ h => h, fun q => ?_, fun q _ method type => ?_⟩
  · rw [protocolAt_push]
    split
    · rename_i h
      rw [h, protocolAt_size]
      exact Nat.le_refl 0
    · exact Nat.le_refl _
  · rw [protocolAt_push]
    split
    · rename_i h
      rw [h, protocolAt_size]
      rfl
    · rfl

theorem Wired.pushProtocol (hw : w.Wired) (name : Symbol) (methods : List String) :
    ({ w with protocols := w.protocols.push { name, methods } } : World).Wired := by
  refine ⟨hw.classes, hw.lookup, hw.fields, fun q impl hi => ?_, hw.units.grow rfl (grows_pushProtocol w name methods)⟩
  rw [protocolAt_push] at hi
  split at hi
  · cases hi
  · exact hw.impls q impl hi

theorem Wired.of_wiring {w' : World} (hw : w.Wired) (h : w'.wiring = w.wiring) : w'.Wired := by
  have hg := grows_of_wiring h
  obtain ⟨hu, hc, hp, hd⟩ := wiring_eq_iff.1 h
  refine ⟨hc ▸ hw.classes, hd ▸ hw.lookup, hd ▸ hw.fields, fun p => ?_, hw.units.grow hu hg⟩
  rw [hd, show w'.protocolAt p = w.protocolAt p by simp only [protocolAt, hp]]
  exact hw.impls p

/-- A change of units alone. -/
theorem grows_units (w : World) (units : Array LoadedUnit) : Grows w { w with units } :=
  ⟨fun _ _ h => h, fun _ _ _ h => h, fun _ => Nat.le_refl _, fun _ _ _ _ => rfl⟩

theorem Wired.withUnits (hw : w.Wired) {units : Array LoadedUnit}
    (hu : ∀ (k : Nat) (l : LoadedUnit), units[k]? = some l → l.Fits w) : ({ w with units } : World).Wired :=
  ⟨hw.classes, hw.lookup, hw.fields, hw.impls, fun k l hl => (hu k l hl).grow (grows_units w units)⟩

/-! ## Loading -/

open Linking

theorem site_of_linkProtocolSite {s : Symbol} {r : ProtocolSite} (h : Yields (fun _ => True) (linkProtocolSite s) r) : r.site = {} := by
  have he : Ensures (fun _ => True) (linkProtocolSite s) fun r => r.site = {} := by
    refine ensures_bind (Q := fun r : ProtocolSite => r.site = {}) (P := fun _ => True)
      (fun _ _ => ⟨trivial, fun _ _ => trivial⟩) fun _ _ => ensures_bind ensures_get fun w _ => ?_
    split
    · exact ensures_pure rfl
    · exact ensures_throw _
  obtain ⟨w, hw, hr⟩ := h
  exact (he w hw).2 r hr

/-- The sites of a unit that was just linked remember nothing. -/
theorem fits_loadedAs {I : World → Prop} (w : World) {u : CompiledUnit} {linked : List (Value × Option HostMember)} {sites : List ProtocolSite}
    {nested : List Nat} (hs : List.Forall₂ (fun s r => Yields I (linkProtocolSite s) r) u.protocolSites.toList sites) :
    (loadedAs u linked sites nested).Fits w := by
  refine ⟨fun s c hc => ?_, fun s c hc => ?_⟩
  · simp only [loadedAs, Array.getElem?_map, Option.map_eq_some_iff] at hc
    obtain ⟨k, _, rfl⟩ := hc
    exact CallSite.holds_empty
  · have hmem : c ∈ sites := List.mem_of_getElem? (by simpa [loadedAs] using hc)
    obtain ⟨a, w', -, ha⟩ : ∃ a, Yields I (linkProtocolSite a) c := by
      clear hc
      generalize u.protocolSites.toList = names at hs
      induction hs with
      | nil => cases hmem
      | cons hr _ ih =>
        rcases List.mem_cons.1 hmem with rfl | hmem
        · exact ⟨_, hr⟩
        · exact ih hmem
    show CallSite.Holds _ c.site
    rw [site_of_linkProtocolSite ⟨w', trivial, ha⟩]
    exact CallSite.holds_empty

theorem stable_wired (w₀ : World) : Stable fun w => w.Wired ∧ Grows w₀ w where
  apart h hw := ⟨h.1.of_wiring hw, h.2.trans (grows_of_wiring hw)⟩
  register p method type d h := ⟨h.1.registerImpl p method type d, h.2.trans (grows_registerImpl ..)⟩
  push {w _ _ _ _} h _ hs _ := by
    refine ⟨h.1.withUnits fun k l hl => ?_, h.2.trans (grows_units w _)⟩
    rw [Array.getElem?_push] at hl
    split at hl
    · cases hl
      exact fits_loadedAs w hs
    · exact h.1.units k l hl
  attach id unit h := ⟨h.1.withMethods id unit, h.2.trans (grows_withMethods ..)⟩

/-- **Loading keeps what call sites rely on**, also when it fails halfway. -/
theorem Wired.load (hw : w.Wired) (u : CompiledUnit) : (w.load u).2.Wired ∧ Grows w (w.load u).2 :=
  (stable_wired w).load ⟨hw, .refl w⟩ u

end

end World

end LispMachine
