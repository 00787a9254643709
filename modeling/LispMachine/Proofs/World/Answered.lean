import LispMachine.Proofs.Emit.Logic
import LispMachine.Proofs.Host.Typed
import LispMachine.Proofs.Run.Tame
import LispMachine.Proofs.World.Linked
/-!
# What linked tables hold

The code of a unit names entries of the unit's tables, which linking turns into values, members and numbers of
other units.  In every world that loading builds, an entry that serves a need (`Pool.Provides`) has become what
linking gives for that need (`Answers`), so code finds what its expression asked for (`Answered.load`).
-/
namespace LispMachine

open World World.Linking

/-- The members that the world knows are as they declare. -/
def World.KnowsMembers (w : World) : Prop := w.classes.Typed

/-- The linked tables have at an entry what linking gives for a need. -/
def LinkedCode.Answers (t : LinkedCode) : Need → Nat → Prop
  | .constant c, e => ∃ c' r, (c' = c ∨ Constant.same c' c = true) ∧ Yields KnowsMembers (linkConstant c') r ∧
    t.constants[e]? = some r.1 ∧ t.hosts[e]? = some r.2
  | .keyword k, e => t.keywords[e]? = some k
  | .protocol m, e => ∃ s, Yields KnowsMembers (linkProtocolSite m) s ∧ t.protocols[e]? = some (s.protocol, s.method)
  | .child u, e => ∃ id, Yields KnowsMembers (link u) id ∧ t.children[e]? = some id

/-- The tables of a unit as its code was given them. -/
def CompiledUnit.pool (u : CompiledUnit) : Pool :=
  { constants := u.constants, keywordSites := u.keywordSites, protocolSites := u.protocolSites
    children := u.children.reverse }

/-- The unit finds in its linked tables what its code asks for. -/
def LoadedUnit.Answered (l : LoadedUnit) : Prop := ∀ (n : Need) (e : Nat), l.unit.pool.Provides n e → l.linked.Answers n e

/-! ## What is found -/

/-- Only forms share entries without being the same, and texts do not. -/
theorem Constant.eq_of_same {c c' : Constant} (h : c' = c ∨ same c' c = true) (hc : ∀ f, c = .form f → ∃ s, f = .str s) :
    c' = c := by
  obtain rfl | h := h
  · rfl
  · cases c with
    | form f =>
      obtain ⟨s, rfl⟩ := hc f rfl
      cases c' with
      | form f' =>
        simp only [same, Bool.and_eq_true] at h
        cases f' with
        | str s' =>
          have hs : (s' == s) = true := by
            have h₂ := h.2
            rw [show ((Form.str s' == Form.str s) = Form.beq (.str s') (.str s)) from rfl, Form.beq] at h₂
            exact h₂
          rw [eq_of_beq hs]
        | _ => simp [Form.typeName] at h
      | _ => cases h
    | var s =>
      cases c' with
      | var s' => rw [show s' = s from eq_of_beq h]
      | _ => cases h
    | type name =>
      cases c' with
      | type name' => rw [show name' = name from eq_of_beq h]
      | _ => cases h
    | host r =>
      cases c' with
      | host r' => rw [show r' = r from eq_of_beq h]
      | _ => cases h

theorem World.ret_of_findHost? {w : World} {r : HostRef} {m : HostMember} (h : w.findHost? r = some m) : m.ret = r.ret := by
  unfold findHost? at h
  simp only [bind, Option.bind_eq_some_iff] at h
  obtain ⟨c, _, h⟩ := h
  have hm := List.find?_some h
  simp only [Bool.and_eq_true] at hm
  exact eq_of_beq hm.2

theorem World.typed_of_findHost? {w : World} (hw : w.KnowsMembers) {r : HostRef} {m : HostMember}
    (h : w.findHost? r = some m) : m.Typed := by
  unfold findHost? at h
  simp only [bind, Option.bind_eq_some_iff] at h
  obtain ⟨c, hc, h⟩ := h
  unfold ClassTable.lookup? at hc
  obtain ⟨id, _, hc⟩ := Option.bind_eq_some_iff.1 hc
  exact ClassTable.Typed.findMembers hw hc m (List.mem_of_find?_eq_some h)

theorem World.stable_true : Stable fun _ => True where
  apart _ _ := trivial
  register _ _ _ _ _ := trivial
  push _ _ _ _ := trivial
  attach _ _ _ := trivial

namespace LinkedCode.Answers

variable {t : LinkedCode} {e : Nat}

theorem constant {c : Constant} (h : t.Answers (.constant c) e) : ∃ v, t.constants[e]? = some v := by
  obtain ⟨_, r, _, _, hv, _⟩ := h
  exact ⟨r.1, hv⟩

/-- Texts are found as they are written. -/
theorem text {s : String} (h : t.Answers (.constant (.form (.str s))) e) : t.constants[e]? = some (.str s) := by
  obtain ⟨c', r, hc, ⟨w, _, hr⟩, hv, _⟩ := h
  rw [Constant.eq_of_same hc fun f hf => ⟨s, by cases hf; rfl⟩] at hr
  cases hr
  exact hv

theorem var {s : Symbol} (h : t.Answers (.constant (.var s)) e) : ∃ id name, t.constants[e]? = some (.var id name) := by
  obtain ⟨c', r, hc, ⟨w, hw, hr⟩, hv, _⟩ := h
  rw [Constant.eq_of_same hc fun f hf => by cases hf] at hr
  have hl : Ensures (fun _ => True) (linkConstant (.var s)) fun r => ∃ id name, r.1 = .var id name :=
    ensures_bind (ensures_linkVar stable_true.withstands s) fun id _ => ensures_bind ensures_get fun w _ => ensures_pure ⟨id, _, rfl⟩
  obtain ⟨id, name, hr⟩ := (hl w trivial).2 r hr
  exact ⟨id, name, hr ▸ hv⟩

theorem type {name : String} (h : t.Answers (.constant (.type name)) e) :
    ∃ id name', t.constants[e]? = some (.type id name') := by
  obtain ⟨c', r, hc, ⟨w, hw, hr⟩, hv, _⟩ := h
  rw [Constant.eq_of_same hc fun f hf => by cases hf] at hr
  have hl : Ensures (fun _ => True) (linkConstant (.type name)) fun r => ∃ id name', r.1 = .type id name' := by
    refine ensures_bind ensures_get fun w _ => ?_
    split
    · exact ensures_pure ⟨_, _, rfl⟩
    · exact ensures_throw _
  obtain ⟨id, name, hr⟩ := (hl w trivial).2 r hr
  exact ⟨id, name, hr ▸ hv⟩

/-- A member is found with the result that was asked for, and its results are of that kind. -/
theorem host {r : HostRef} (h : t.Answers (.constant (.host r)) e) :
    ∃ m, t.hosts[e]? = some (some m) ∧ m.ret = r.ret ∧ m.Typed := by
  obtain ⟨c', x, hc, ⟨w, hw, hx⟩, _, hh⟩ := h
  rw [Constant.eq_of_same hc fun f hf => by cases hf] at hx
  have hl : Ensures KnowsMembers (linkConstant (.host r)) fun x => ∃ m, x.2 = some m ∧ m.ret = r.ret ∧ m.Typed := by
    refine ensures_bind ensures_get fun w hw => ?_
    split
    · rename_i m hm
      exact ensures_pure ⟨m, rfl, ret_of_findHost? hm, typed_of_findHost? hw hm⟩
    · exact ensures_throw _
  obtain ⟨m, hm, hr, ht⟩ := (hl w hw).2 x hx
  exact ⟨m, hm ▸ hh, hr, ht⟩

end LinkedCode.Answers

/-! ## Loading -/

namespace World

theorem exists_of_forall₂ {α β : Type} {R : α → β → Prop} {as : List α} {bs : List β} (h : List.Forall₂ R as bs) :
    ∀ {i : Nat} {a : α}, as[i]? = some a → ∃ b, R a b ∧ bs[i]? = some b := by
  induction h with
  | nil =>
    intro i a hi
    cases hi
  | cons hr _ ih =>
    intro i a hi
    cases i with
    | zero =>
      cases hi
      exact ⟨_, hr, rfl⟩
    | succ i => exact ih hi

/-- Every unit finds what its code asks for, and the members that the world knows are as they declare. -/
structure Answered (w : World) : Prop where
  members : w.KnowsMembers
  units : w.AllUnits LoadedUnit.Answered

theorem Linking.Yields.mono {α : Type} {I J : World → Prop} {x : Linking α} {a : α} (h : Yields I x a) (hij : ∀ w, I w → J w) :
    Yields J x a := by
  obtain ⟨w, hw, hx⟩ := h
  exact ⟨w, hij w hw, hx⟩

theorem answered_loadedAs {u : CompiledUnit} {linked : List (Value × Option HostMember)} {sites : List ProtocolSite}
    {nested : List Nat} (hl : List.Forall₂ (fun c r => Yields Answered (linkConstant c) r) u.constants.toList linked)
    (hs : List.Forall₂ (fun s r => Yields Answered (linkProtocolSite s) r) u.protocolSites.toList sites)
    (hn : List.Forall₂ (fun v id => Yields Answered (link v) id) u.children nested) :
    (loadedAs u linked sites nested).Answered := by
  intro n e hp
  cases n with
  | constant c =>
    obtain ⟨c', hc, hsame⟩ := hp
    obtain ⟨r, hr, he⟩ := exists_of_forall₂ hl (i := e) (a := c') (by simpa [CompiledUnit.pool, loadedAs] using hc)
    exact ⟨c', r, hsame, hr.mono fun _ => Answered.members, by simp [LoadedUnit.linked, loadedAs, he],
      by simp [LoadedUnit.linked, loadedAs, he]⟩
  | keyword k =>
    have hk : u.keywordSites[e]? = some k := hp
    simp [LinkedCode.Answers, LoadedUnit.linked, loadedAs, hk]
  | protocol m =>
    obtain ⟨s, hs, he⟩ := exists_of_forall₂ hs (i := e) (a := m) (by simpa [Pool.Provides, CompiledUnit.pool, loadedAs] using hp)
    exact ⟨s, hs.mono fun _ => Answered.members, by simp [LoadedUnit.linked, loadedAs, he]⟩
  | child v =>
    obtain ⟨id, hi, he⟩ := exists_of_forall₂ hn (i := e) (a := v) (by simpa [Pool.Provides, CompiledUnit.pool, loadedAs] using hp)
    exact ⟨id, hi.mono fun _ => Answered.members, by simpa [LoadedUnit.linked, loadedAs] using he⟩

theorem stable_answered : Stable Answered where
  apart hw h := by
    obtain ⟨hu, hc, -⟩ := wiring_eq_iff.1 h
    refine ⟨?_, hw.units.of_eq hu⟩
    unfold KnowsMembers
    rw [hc]
    exact hw.members
  register _ _ _ _ hw := ⟨hw.members, hw.units⟩
  push hw hl hs hn := ⟨hw.members, hw.units.push (answered_loadedAs hl hs hn)⟩
  attach id unit hw := ⟨ClassTable.Typed.modify hw.members (by intro c; rfl) id, hw.units⟩

/-- **Loading keeps all units answered**, also when it fails halfway. -/
theorem Answered.load {w : World} (hw : w.Answered) (u : CompiledUnit) : (w.load u).2.Answered := stable_answered.load hw u

/-- So they are answered in every world that comes of loading units into the bare one. -/
theorem answered_loads (us : List CompiledUnit) : (us.foldl (fun w u => (w.load u).2) bare).Answered := by
  have hbare : bare.Answered := ⟨ClassTable.typed_initial, fun _ _ h => by cases h⟩
  generalize bare = w at hbare
  induction us generalizing w with
  | nil => exact hbare
  | cons u us ih => exact ih _ (hbare.load u)

end World

end LispMachine
