import Mathlib.Data.List.Forall2
import LispMachine.World.Load
/-!
# Loaded units are linked

Linking a unit is a long walk over the world, and what is proved about it has one shape: an invariant of
worlds that survives the single changes of the world (`Withstands`) survives all of linking, and every part of a
unit is linked in a world in which it holds (`ensures_link`).  Most invariants do not look at vars at all
(`Stable`).  The first one: the tables of every unit are of the sizes that its code expects (`Linked.load`).
-/
namespace LispMachine

namespace World

namespace Linking

variable {α β : Type} {I : World → Prop} {Q : α → Prop}

/-- The action keeps the invariant, also when it fails, and its result has the property. -/
def Ensures (I : World → Prop) (x : Linking α) (Q : α → Prop) : Prop :=
  ∀ w, I w → I (x.run w).2 ∧ ∀ a, (x.run w).1 = .ok a → Q a

/-- The action gives the result in some world in which the invariant holds. -/
def Yields (I : World → Prop) (x : Linking α) (a : α) : Prop := ∃ w, I w ∧ (x.run w).1 = .ok a

theorem Ensures.yields {x : Linking α} (h : Ensures I x Q) : Ensures I x (Yields I x) :=
  fun w hw => ⟨(h w hw).1, fun _ ha => ⟨w, hw, ha⟩⟩

theorem ensures_pure {a : α} (h : Q a) : Ensures I (pure a : Linking α) Q :=
  fun _ hw => ⟨hw, fun _ he => by cases he; exact h⟩

theorem ensures_throw (e : LoadError) : Ensures I (throw e : Linking α) Q :=
  fun _ hw => ⟨hw, fun _ he => by cases he⟩

theorem ensures_get : Ensures I (get : Linking World) I := fun _ hw => ⟨hw, fun _ he => by cases he; exact hw⟩

theorem ensures_modifyGet {f : World → α × World} (h : ∀ w, I w → I (f w).2) :
    Ensures I (modifyGet f : Linking α) fun _ => True :=
  fun w hw => ⟨h w hw, fun _ _ => trivial⟩

theorem ensures_modify {f : World → World} (h : ∀ w, I w → I (f w)) : Ensures I (modify f : Linking PUnit) fun _ => True :=
  fun w hw => ⟨h w hw, fun _ _ => trivial⟩

theorem ensures_bind {x : Linking α} {k : α → Linking β} {P : α → Prop} {Q : β → Prop} (hx : Ensures I x P)
    (hk : ∀ a, P a → Ensures I (k a) Q) : Ensures I (x >>= k) Q := by
  intro w hw
  obtain ⟨hi, hp⟩ := hx w hw
  have he : (x >>= k).run w = match x.run w with
      | (.ok a, w') => (k a).run w'
      | (.error e, w') => (.error e, w') := by
    simp only [Bind.bind, ExceptT.bind, ExceptT.run, ExceptT.mk, StateT.bind, ExceptT.bindCont]
    rcases x w with ⟨_ | _, _⟩ <;> rfl
  rw [he]
  rcases hr : x.run w with ⟨e | a, w'⟩ <;> rw [hr] at hi hp
  · exact ⟨hi, fun _ he => by cases he⟩
  · exact hk a (hp a rfl) w' hi

theorem ensures_mapM {f : α → Linking β} {Q : α → β → Prop} (hf : ∀ a, Ensures I (f a) (Q a)) :
    ∀ as : List α, Ensures I (as.mapM f) fun bs => List.Forall₂ Q as bs
  | [] => ensures_pure .nil
  | a :: as => by
    rw [List.mapM_cons]
    exact ensures_bind (hf a) fun _ hb => ensures_bind (ensures_mapM hf as) fun _ hbs => ensures_pure (.cons hb hbs)

theorem ensures_forM {f : α → Linking PUnit} (hf : ∀ a, Ensures I (f a) fun _ => True) :
    ∀ as : List α, Ensures I (as.forM f) fun _ => True
  | [] => ensures_pure trivial
  | a :: as => by
    rw [List.forM_eq_forM, List.forM_cons]
    exact ensures_bind (hf a) fun _ _ => ensures_forM hf as

end Linking

open Linking

/-! ## Parts of a unit -/

/-- The unit with the tables that were linked for it. -/
def loadedAs (u : CompiledUnit) (linked : List (Value × Option HostMember)) (sites : List ProtocolSite)
    (nested : List Nat) : LoadedUnit :=
  { unit := u, constants := (linked.map (·.1)).toArray, hosts := (linked.map (·.2)).toArray
    keywordSites := u.keywordSites.map fun k => ⟨k, {}⟩, protocolSites := sites.toArray, children := nested.toArray }

/-- Units, classes, protocols and dispatchers: what linking adds to and call sites rely on. -/
def wiring (w : World) : Array LoadedUnit × ClassTable × Array Protocol × DispatcherTable :=
  (w.units, w.classes, w.protocols, w.dispatchers)

theorem wiring_eq_iff {w w' : World} : w'.wiring = w.wiring ↔
    w'.units = w.units ∧ w'.classes = w.classes ∧ w'.protocols = w.protocols ∧ w'.dispatchers = w.dispatchers := by
  simp only [wiring, Prod.mk.injEq]

/-- The changes of the wiring that an invariant has to survive while units are linked: an implementation that is
registered, a new unit, and a type that gets its methods. -/
structure Rewired (I : World → Prop) : Prop where
  register : ∀ {w : World} (p : Nat) (method : String) (type : ClassId) (d : Dispatcher), I w → I (w.registerImpl p method type d)
  push : ∀ {w : World} {u : CompiledUnit} {linked : List (Value × Option HostMember)} {sites : List ProtocolSite}
    {nested : List Nat}, I w → List.Forall₂ (fun c r => Yields I (linkConstant c) r) u.constants.toList linked →
    List.Forall₂ (fun s r => Yields I (linkProtocolSite s) r) u.protocolSites.toList sites →
    List.Forall₂ (fun v id => Yields I (link v) id) u.children nested →
    I { w with units := w.units.push (loadedAs u linked sites nested) }
  attach : ∀ {w : World} (id : ClassId) (unit : Nat), I w → I { w with classes := w.classes.modify id fun c =>
    { c with declared := c.declared.map fun d => { d with methods := some unit } } }

/-- All that an invariant has to survive: also a new var and new identities. -/
structure Withstands (I : World → Prop) : Prop extends Rewired I where
  intern : ∀ {w : World} (ns name : String), I w → I (w.intern ns name).2
  identify : ∀ {w : World} (nextId : Nat), I w → I { w with nextId }

/-- An invariant of the wiring does not look at anything else. -/
structure Stable (I : World → Prop) : Prop extends Rewired I where
  apart : ∀ {w w' : World}, I w → w'.wiring = w.wiring → I w'

variable {I : World → Prop}

theorem wiring_intern (w : World) (ns name : String) : (w.intern ns name).2.wiring = w.wiring := by
  have hn : (w.ensureNs ns).wiring = w.wiring := by
    unfold ensureNs
    split <;> rfl
  unfold intern
  dsimp only
  split <;> exact hn

theorem Stable.withstands (hI : Stable I) : Withstands I :=
  ⟨hI.toRewired, fun ns name hw => hI.apart hw (wiring_intern _ ns name), fun _ hw => hI.apart hw rfl⟩

theorem ensures_linkVar (hI : Withstands I) (s : Symbol) : Ensures I (linkVar s) fun _ => True := by
  unfold linkVar
  split
  · exact ensures_throw _
  · refine ensures_bind ensures_get fun w _ => ?_
    split
    · exact ensures_throw _
    · exact ensures_modifyGet fun _ hw => hI.intern _ _ hw

theorem ensures_linkConstant (hI : Withstands I) (c : Constant) : Ensures I (linkConstant c) fun _ => True := by
  cases c with
  | form f =>
    exact ensures_bind (ensures_modifyGet fun _ hw => hI.identify _ hw) fun _ _ => ensures_pure trivial
  | var s =>
    exact ensures_bind (ensures_linkVar hI s) fun _ _ => ensures_bind ensures_get fun _ _ => ensures_pure trivial
  | type name =>
    refine ensures_bind ensures_get fun w _ => ?_
    split
    · exact ensures_pure trivial
    · exact ensures_throw _
  | host r =>
    refine ensures_bind ensures_get fun w _ => ?_
    split
    · exact ensures_pure trivial
    · exact ensures_throw _

theorem ensures_linkProtocolSite (hI : Withstands I) (s : Symbol) : Ensures I (linkProtocolSite s) fun _ => True := by
  refine ensures_bind (ensures_linkVar hI s) fun _ _ => ensures_bind ensures_get fun w _ => ?_
  split
  · exact ensures_pure trivial
  · exact ensures_throw _

theorem Withstands.registerAll (hI : Withstands I) (p : Nat) (type : ClassId) (unit : Nat) (methods : List Method) :
    ∀ (names : List String) {w : World}, I w → I (names.foldl (fun w name =>
      if methods.any (·.name == name) then w.registerImpl p name type (.method unit name) else w) w)
  | [], _, hw => hw
  | name :: names, w, hw => by
    rw [List.foldl_cons]
    refine Withstands.registerAll hI p type unit methods names ?_
    split
    · exact hI.register _ _ _ _ hw
    · exact hw

theorem ensures_attachProtocol (hI : Withstands I) (unit : Nat) (type : ClassId) (methods : List Method) (s : Symbol) :
    Ensures I (attachProtocol unit type methods s) fun _ => True := by
  refine ensures_bind (ensures_linkVar hI s) fun _ _ => ensures_bind ensures_get fun w _ => ?_
  split
  · exact ensures_modify fun w hw => hI.registerAll _ _ _ _ _ hw
  · exact ensures_throw _

theorem ensures_attachType (hI : Withstands I) (unit : Nat) (name : String) (protocols : List Symbol)
    (methods : List Method) : Ensures I (attachType unit name protocols methods) fun _ => True := by
  refine ensures_bind ensures_get fun w _ => ?_
  split
  · split
    · refine ensures_bind (ensures_modify fun w hw => hI.attach _ _ hw) fun _ _ => ?_
      exact ensures_forM (ensures_attachProtocol hI unit _ methods) protocols
    · exact ensures_throw _
  · exact ensures_throw _

/-! ## Whole units -/

mutual

/-- **Linking keeps every invariant that survives its single changes**, also when it fails halfway. -/
theorem ensures_link (hI : Withstands I) : ∀ u : CompiledUnit, Ensures I (link u) fun _ => True
  | ⟨name, kind, methods, closed, constants, keywordSites, protocolSites, children⟩ => by
    rw [link]
    refine ensures_bind (ensures_mapM (fun c => (ensures_linkConstant hI c).yields) _) fun linked hl => ?_
    refine ensures_bind (ensures_mapM (fun s => (ensures_linkProtocolSite hI s).yields) _) fun sites hs => ?_
    refine ensures_bind (ensures_linkAll hI children) fun nested hn => ?_
    refine ensures_bind (ensures_modifyGet fun w hw => hI.push hw hl hs hn) fun id _ => ?_
    dsimp only
    split
    · exact ensures_bind (ensures_attachType hI _ _ _ _) fun _ _ => ensures_pure trivial
    · exact ensures_pure trivial

theorem ensures_linkAll (hI : Withstands I) : ∀ us : List CompiledUnit,
    Ensures I (linkAll us) fun ids => List.Forall₂ (fun v id => Yields I (link v) id) us ids
  | [] => by
    rw [linkAll]
    exact ensures_pure .nil
  | u :: us => by
    rw [linkAll]
    exact ensures_bind (ensures_link hI u).yields fun _ hi => ensures_bind (ensures_linkAll hI us) fun _ his =>
      ensures_pure (.cons hi his)

end

theorem Withstands.load (hI : Withstands I) {w : World} (hw : I w) (u : CompiledUnit) : I (w.load u).2 := (ensures_link hI u w hw).1

theorem Stable.load (hI : Stable I) {w : World} (hw : I w) (u : CompiledUnit) : I (w.load u).2 := hI.withstands.load hw u

end World

/-! ## Sizes -/

/-- The tables of the unit are as long as the code expects. -/
structure LoadedUnit.Linked (l : LoadedUnit) : Prop where
  constants : l.constants.size = l.unit.constants.size
  hosts : l.hosts.size = l.unit.constants.size
  keywordSites : l.keywordSites.size = l.unit.keywordSites.size
  protocolSites : l.protocolSites.size = l.unit.protocolSites.size
  children : l.children.size = l.unit.children.length

namespace World

/-- Every unit has the property. -/
def AllUnits (P : LoadedUnit → Prop) (w : World) : Prop := ∀ (k : Nat) (l : LoadedUnit), w.units[k]? = some l → P l

theorem AllUnits.of_eq {P : LoadedUnit → Prop} {w w' : World} (hw : w.AllUnits P) (h : w'.units = w.units) : w'.AllUnits P := by
  unfold AllUnits
  rw [h]
  exact hw

theorem AllUnits.push {P : LoadedUnit → Prop} {w : World} (hw : w.AllUnits P) {l : LoadedUnit} (hl : P l) :
    AllUnits P { w with units := w.units.push l } := by
  intro k l' hk
  rw [Array.getElem?_push] at hk
  split at hk
  · cases hk
    exact hl
  · exact hw k l' hk

/-- Every unit of the world is linked. -/
def Linked (w : World) : Prop := w.AllUnits LoadedUnit.Linked

theorem stable_linked : Stable Linked where
  apart hw h := hw.of_eq (wiring_eq_iff.1 h).1
  register _ _ _ _ hw := hw.of_eq rfl
  push hw hl hs hn := by
    have hl := hl.length_eq
    have hs := hs.length_eq
    have hn := hn.length_eq
    refine AllUnits.push hw ⟨?_, ?_, ?_, ?_, ?_⟩ <;> simp_all [loadedAs]
  attach _ _ hw := hw

/-- **Loading keeps all units linked**, also when it fails halfway. -/
theorem Linked.load {w : World} (hw : w.Linked) (u : CompiledUnit) : (w.load u).2.Linked := stable_linked.load hw u

end World

end LispMachine
