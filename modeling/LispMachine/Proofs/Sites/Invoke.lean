import LispMachine.Proofs.Machine.Keeps
import LispMachine.Proofs.Sites.Wired
import LispMachine.Proofs.World.Implementations
/-!
# Calls through a site

In a wired world a call through a site does what the call without the site would do, and leaves a wired
world behind.  The numbers of classes and dispatchers fit into the halves of a word, so a remembered pair is
the pair that was found.
-/
namespace LispMachine.Machine

open Run World

variable {w : World} {unit site : Nat}

/-- How many numbers a half of a word holds. -/
def words : Nat := UInt32.size

theorem toNat_ofNat_of_lt {n : Nat} (h : n < words) : (UInt32.ofNat n).toNat = n := UInt32.toNat_ofNat_of_lt' h

/-! ## Worlds with another site -/

def keywordSite? (w : World) (unit site : Nat) : Option KeywordSite := (loadedUnit w unit).keywordSites[site]?

def protocolSite? (w : World) (unit site : Nat) : Option ProtocolSite := (loadedUnit w unit).protocolSites[site]?

def withKeywordSite (w : World) (unit site : Nat) (f : KeywordSite → KeywordSite) : World :=
  { w with units := w.units.modify unit fun u => { u with keywordSites := u.keywordSites.modify site f } }

def withProtocolSite (w : World) (unit site : Nat) (f : ProtocolSite → ProtocolSite) : World :=
  { w with units := w.units.modify unit fun u => { u with protocolSites := u.protocolSites.modify site f } }

theorem modify_modify {α : Type} (f g : α → α) (xs : Array α) (i : Nat) : (xs.modify i f).modify i g = xs.modify i (g ∘ f) := by
  apply Array.ext_getElem?
  intro j
  simp only [Array.getElem?_modify]
  split
  · rw [Option.map_map]
  · rfl

theorem withProtocolSite_twice (w : World) (unit site : Nat) (f g : ProtocolSite → ProtocolSite) :
    withProtocolSite (withProtocolSite w unit site f) unit site g = withProtocolSite w unit site (g ∘ f) := by
  simp only [withProtocolSite, modify_modify, Function.comp_def]

theorem loadedUnit_modify (w : World) (unit : Nat) (f : LoadedUnit → LoadedUnit) (h : f default = default) (u : Nat) :
    loadedUnit { w with units := w.units.modify unit f } u = if unit = u then f (loadedUnit w u) else loadedUnit w u := by
  simp only [loadedUnit, Array.getElem?_modify]
  split
  · cases w.units[u]? with
    | none => exact h.symm
    | some l => rfl
  · rfl

theorem keywordSite?_withKeywordSite (w : World) (unit site : Nat) (f : KeywordSite → KeywordSite) (u s : Nat) :
    keywordSite? (withKeywordSite w unit site f) u s =
      if unit = u ∧ site = s then (keywordSite? w u s).map f else keywordSite? w u s := by
  rw [keywordSite?, withKeywordSite, loadedUnit_modify _ _ _ (by rfl)]
  by_cases hu : unit = u
  · rw [if_pos hu, Array.getElem?_modify]
    by_cases hs : site = s
    · rw [if_pos hs, if_pos ⟨hu, hs⟩]
      rfl
    · rw [if_neg hs, if_neg fun h => hs h.2]
      rfl
  · rw [if_neg hu, if_neg fun h => hu h.1]
    rfl

theorem keywordSite?_withProtocolSite (w : World) (unit site : Nat) (f : ProtocolSite → ProtocolSite) (u s : Nat) :
    keywordSite? (withProtocolSite w unit site f) u s = keywordSite? w u s := by
  rw [keywordSite?, withProtocolSite, loadedUnit_modify _ _ _ (by rfl)]
  split <;> rfl

theorem grows_withKeywordSite (w : World) (unit site : Nat) (f : KeywordSite → KeywordSite) :
    Grows w (withKeywordSite w unit site f) := grows_units w _

theorem dispatchers_withProtocolSite (w : World) (unit site : Nat) (f : ProtocolSite → ProtocolSite) :
    (withProtocolSite w unit site f).dispatchers = w.dispatchers := rfl

/-- The sites of every unit fit, also of one that is not there. -/
theorem fits_loadedUnit (hw : w.Wired) (unit : Nat) : (loadedUnit w unit).Fits w := by
  unfold loadedUnit
  cases hu : w.units[unit]? with
  | none => exact ⟨fun _ _ h => (by cases h), fun _ _ h => (by cases h)⟩
  | some l => exact hw.units unit l hu

theorem wired_modifyUnit (hw : w.Wired) {f : LoadedUnit → LoadedUnit} (hf : (f (loadedUnit w unit)).Fits w) :
    ({ w with units := w.units.modify unit f } : World).Wired := by
  refine hw.withUnits fun k l hl => ?_
  rw [Array.getElem?_modify] at hl
  split at hl
  · rename_i hk
    subst hk
    obtain ⟨l', hl', rfl⟩ := Option.map_eq_some_iff.1 hl
    rwa [loadedUnit, hl'] at hf
  · exact hw.units k l hl

theorem forall_getElem?_modify {α : Type} {P : α → Prop} {xs : Array α} {i : Nat} {f : α → α} (h : ∀ (j : Nat) (a : α), xs[j]? = some a → P a)
    (hf : ∀ a, xs[i]? = some a → P (f a)) (j : Nat) (a : α) (ha : (xs.modify i f)[j]? = some a) : P a := by
  rw [Array.getElem?_modify] at ha
  split at ha
  · rename_i hj
    subst hj
    obtain ⟨a', ha', rfl⟩ := Option.map_eq_some_iff.1 ha
    exact hf a' ha'
  · exact h j a ha

theorem wired_withKeywordSite (hw : w.Wired) {f : KeywordSite → KeywordSite}
    (hf : ∀ c, keywordSite? w unit site = some c → (f c).Fits w) : (withKeywordSite w unit site f).Wired := by
  have hfits := fits_loadedUnit hw unit
  exact wired_modifyUnit hw ⟨forall_getElem?_modify hfits.keywords hf, hfits.protocols⟩

theorem wired_withProtocolSite (hw : w.Wired) {f : ProtocolSite → ProtocolSite}
    (hf : ∀ c, protocolSite? w unit site = some c → (f c).Fits w) : (withProtocolSite w unit site f).Wired := by
  have hfits := fits_loadedUnit hw unit
  exact wired_modifyUnit hw ⟨hfits.keywords, forall_getElem?_modify hfits.protocols hf⟩

/-! ## Keyword sites -/

/-- What a keyword call reads once it has its dispatcher. -/
def readKeyword (w : World) (k : Keyword) (target : Value) (d : Nat) : Value :=
  match w.dispatchers.entries[d]?, target with
  | some (.field i), .inst obj _ _ => (((w.fieldsOf obj)[i]?).getD Slot.empty).toValue
  | _, _ => Coll.get w target (.keyword k) .nil

theorem readKeyword_eq {k : Keyword} {target : Value} {d : Nat} (h : w.Looks k target.classId d) :
    readKeyword w k target d = Coll.get w target (.keyword k) .nil := by
  obtain ⟨x, hx, hf⟩ := h
  unfold readKeyword
  rw [hx]
  split
  · rename_i i obj type name he
    obtain ⟨hns, hi⟩ := hf i (by cases he; rfl)
    have hi : (w.typeDef? type).bind (·.fieldIndex? k.name) = some i := hi
    rw [Coll.get, hns, World.fieldNamed?, hi]
    rfl
  · rfl

/-- A new field dispatcher. -/
theorem grows_field (w : World) (type : ClassId) (i : Nat) :
    Grows w { w with dispatchers := (w.dispatchers.field type i).2 } := by
  refine ⟨fun id d h => ?_, fun _ _ _ h => h, fun _ => Nat.le_refl _, fun _ _ _ _ => rfl⟩
  unfold DispatcherTable.field
  split
  · exact h
  · simp only [DispatcherTable.register, Array.getElem?_push]
    rw [if_neg (Nat.ne_of_lt (Array.getElem?_eq_some_iff.1 h).1)]
    exact h

theorem entries_field (hw : w.Wired) (type : ClassId) (i : Nat) :
    (w.dispatchers.field type i).2.entries[(w.dispatchers.field type i).1]? = some (.field i) := by
  unfold DispatcherTable.field
  split
  · rename_i id h
    exact hw.fields type i id h
  · exact Array.getElem?_push_size ..

theorem wired_field (hw : w.Wired) (type : ClassId) (i : Nat) :
    ({ w with dispatchers := (w.dispatchers.field type i).2 } : World).Wired := by
  have hg := grows_field w type i
  refine ⟨hw.classes, hg.dispatchers _ _ hw.lookup, fun t j id h => ?_,
    fun p impl hi => Nat.lt_of_lt_of_le (hw.impls p impl hi) hg.size_le, hw.units.grow rfl hg⟩
  have hnew := entries_field hw type i
  revert h hnew
  simp only [DispatcherTable.field]
  split
  · intro h _
    exact hw.fields t j id h
  · rename_i hnone
    intro h hnew
    simp only [List.lookup_cons] at h
    split at h
    · rename_i hkey
      cases h
      obtain ⟨rfl, rfl⟩ := Prod.mk.inj (eq_of_beq hkey)
      exact hnew
    · have hold := hw.fields t j id h
      simp only [DispatcherTable.register, Array.getElem?_push]
      rw [if_neg (Nat.ne_of_lt (Array.getElem?_eq_some_iff.1 hold).1)]
      exact hold

/-- The dispatcher for a receiver is found or made, and it looks the keyword up. -/
theorem keywordDispatcher_spec (hw : w.Wired) (k : Keyword) (target : Value) :
    ∃ d table, keywordDispatcher k target w = (.value d, { w with dispatchers := table }) ∧
      ({ w with dispatchers := table } : World).Wired ∧ Grows w { w with dispatchers := table } ∧
      World.Looks { w with dispatchers := table } k target.classId d := by
  have hlookup : ∃ d table, ((.value DispatcherTable.lookupId, w) : Outcome Nat × World) = (.value d, { w with dispatchers := table }) ∧
      ({ w with dispatchers := table } : World).Wired ∧ Grows w { w with dispatchers := table } ∧
      World.Looks { w with dispatchers := table } k target.classId d :=
    ⟨_, w.dispatchers, rfl, hw, .refl w, .lookup, hw.lookup, fun _ h => by cases h⟩
  cases target with
  | inst obj type name =>
    by_cases hns : k.ns.isNone
    · cases hi : w.fieldIndex? type k.name with
      | none =>
        have he : keywordDispatcher k (.inst obj type name) w = (.value DispatcherTable.lookupId, w) := by
          have hi : (w.typeDef? type).bind (·.fieldIndex? k.name) = none := hi
          simp only [keywordDispatcher, if_pos hns, world_bind, hi]
          rfl
        rw [he]
        exact hlookup
      | some i =>
        refine ⟨(w.dispatchers.field type i).1, (w.dispatchers.field type i).2, ?_, wired_field hw type i, grows_field w type i,
          .field i, entries_field hw type i, fun j hj => ?_⟩
        · have hi : (w.typeDef? type).bind (·.fieldIndex? k.name) = some i := hi
          simp only [keywordDispatcher, if_pos hns, world_bind, hi]
          rfl
        · cases hj
          exact ⟨Option.isNone_iff_eq_none.1 hns, hi⟩
    · have he : keywordDispatcher k (.inst obj type name) w = (.value DispatcherTable.lookupId, w) := by
        simp only [keywordDispatcher, if_neg hns]
        rfl
      rw [he]
      exact hlookup
  | _ => exact hlookup

/-- One more lookup was counted, and if it missed, one more update. -/
def Counted (c c' : CallSite) : Prop := c'.hits + c'.misses = c.hits + c.misses + 1 ∧ c'.updates + c.misses = c.updates + c'.misses

theorem get_congr {w' : World} (hc : w'.classes = w.classes) (hf : w'.fields = w.fields) (target key otherwise : Value) :
    Coll.get w' target key otherwise = Coll.get w target key otherwise := by
  simp only [Coll.get, World.fieldNamed?, World.typeDef?, World.fieldsOf, hc, hf]

/-- The end of a keyword call. -/
theorem readKeyword_run (w : World) (k : Keyword) (target : Value) (d : Nat) :
    (match w.dispatchers.entries[d]?, target with
      | some (.field i), .inst obj _ _ => Pure.pure (((w.fieldsOf obj)[i]?).getD Slot.empty).toValue
      | _, _ => Pure.pure (Coll.get w target (.keyword k) .nil) : Run Value) w = (.value (readKeyword w k target d), w) := by
  unfold readKeyword
  generalize w.dispatchers.entries[d]? = x
  split <;> rfl

theorem keywordInvoke_outOfRange (hc : keywordSite? w unit site = none) (target : Value) :
    keywordInvoke unit site target w = raise (.internal "keyword site out of range") w := by
  have hc : (loadedUnit w unit).keywordSites[site]? = none := hc
  simp only [keywordInvoke, world_bind, hc]

/-- The call is a hit. -/
theorem keywordInvoke_hit {cell : KeywordSite} (hc : keywordSite? w unit site = some cell) {target : Value} {d : UInt32} {current : CallSite}
    (hl : cell.site.lookup (UInt32.ofNat target.classId) = (some d, current)) {w₁ : World}
    (hw₁ : withKeywordSite w unit site (fun c => { c with site := current }) = w₁) :
    keywordInvoke unit site target w = (.value (readKeyword w₁ cell.keyword target d.toNat), w₁) := by
  have hc : (loadedUnit w unit).keywordSites[site]? = some cell := hc
  simp only [keywordInvoke, world_bind, hc, hl]
  rw [← readKeyword_run, ← hw₁]
  rfl

/-- The call is a miss. -/
theorem keywordInvoke_miss {cell : KeywordSite} (hc : keywordSite? w unit site = some cell) {target : Value} {current : CallSite}
    (hl : cell.site.lookup (UInt32.ofNat target.classId) = (none, current)) {w₁ w₂ w₃ : World}
    (hw₁ : withKeywordSite w unit site (fun c => { c with site := current }) = w₁) {d : Nat}
    (hd : keywordDispatcher cell.keyword target w₁ = (.value d, w₂))
    (hw₃ : withKeywordSite w₂ unit site (fun c => { c with site := c.site.install (UInt32.ofNat target.classId) (UInt32.ofNat d) }) = w₃) :
    keywordInvoke unit site target w = (.value (readKeyword w₃ cell.keyword target d), w₃) := by
  have hc : (loadedUnit w unit).keywordSites[site]? = some cell := hc
  have hmod : modifyKeywordSite unit site (fun c => { c with site := current }) w = (.value ⟨⟩, w₁) := by
    rw [← hw₁]
    rfl
  simp only [keywordInvoke, world_bind, hc, hl]
  rw [← readKeyword_run, ← hw₃]
  simp only [Bind.bind, Run.bind, hmod, hd]
  rfl

/-- **A keyword call is a lookup**, whatever the site remembers, and it is counted once. -/
theorem keywordInvoke_spec (hw : w.Wired) {cell : KeywordSite} (hc : keywordSite? w unit site = some cell) {target : Value}
    (ht : target.classId < words) :
    ∃ w' c', keywordInvoke unit site target w = (.value (Coll.get w target (.keyword cell.keyword) .nil), w') ∧
      Grows w w' ∧ (w'.dispatchers.entries.size ≤ words → w'.Wired) ∧
      (∀ u s, keywordSite? w' u s = if unit = u ∧ site = s then some c' else keywordSite? w u s) ∧ Counted cell.site c'.site := by
  obtain ⟨found, current, hl⟩ : ∃ found current, cell.site.lookup (UInt32.ofNat target.classId) = (found, current) := ⟨_, _, rfl⟩
  have hfits := (fits_loadedUnit hw unit).keywords site cell hc
  have hcurrent : KeywordSite.Fits w { cell with site := current } := by
    have h := CallSite.Holds.lookup hfits (UInt32.ofNat target.classId)
    rw [hl] at h
    exact h
  have hc : (loadedUnit w unit).keywordSites[site]? = some cell := hc
  generalize hw₁ : withKeywordSite w unit site (fun c => { c with site := current }) = w₁
  have hwired₁ : w₁.Wired := by
    rw [← hw₁]
    refine wired_withKeywordSite hw fun c h => ?_
    rw [keywordSite?, hc] at h
    cases h
    exact hcurrent
  have hg₁ : Grows w w₁ := hw₁ ▸ grows_withKeywordSite ..
  have hsite₁ : ∀ u s, keywordSite? w₁ u s = if unit = u ∧ site = s then some { cell with site := current } else keywordSite? w u s := by
    intro u s
    rw [← hw₁, keywordSite?_withKeywordSite]
    split
    · rename_i h
      rw [← h.1, ← h.2, keywordSite?, hc]
      rfl
    · rfl
  cases found with
  | some d =>
    have he := keywordInvoke_hit hc hl hw₁
    obtain ⟨hentry, hhit⟩ := CallSite.lookup_some (congrArg Prod.fst hl)
    have hlooks : w.Looks cell.keyword target.classId d.toNat := toNat_ofNat_of_lt ht ▸ hfits _ _ hentry
    have hcount : current = _ := (congrArg Prod.snd hl).symm.trans hhit
    refine ⟨w₁, { cell with site := current }, ?_, hg₁, fun _ => hwired₁, hsite₁, ?_⟩
    · rw [he, readKeyword_eq (hlooks.grow hg₁), get_congr (w := w) (by rw [← hw₁]; rfl) (by rw [← hw₁]; rfl)]
    · rw [hcount]
      exact ⟨by simp only; omega, rfl⟩
  | none =>
    obtain ⟨d, table, hd, hwired₂, hg₂, hlooks⟩ := keywordDispatcher_spec hwired₁ cell.keyword target
    generalize hw₂ : ({ w₁ with dispatchers := table } : World) = w₂ at hd hwired₂ hg₂ hlooks
    generalize hw₃ : withKeywordSite w₂ unit site
      (fun c => { c with site := c.site.install (UInt32.ofNat target.classId) (UInt32.ofNat d) }) = w₃
    have he := keywordInvoke_miss hc hl hw₁ hd hw₃
    have hg₃ : Grows w₂ w₃ := hw₃ ▸ grows_withKeywordSite ..
    have hsite₂ : ∀ u s, keywordSite? w₂ u s = keywordSite? w₁ u s := fun u s => by
      rw [← hw₂]
      rfl
    have hcount : current = _ := (congrArg Prod.snd hl).symm.trans (CallSite.lookup_none (congrArg Prod.fst hl))
    refine ⟨w₃, { cell with site := current.install (UInt32.ofNat target.classId) (UInt32.ofNat d) }, ?_, (hg₁.trans hg₂).trans hg₃,
      fun hsize => ?_, fun u s => ?_, ?_⟩
    · rw [he, readKeyword_eq (hlooks.grow hg₃), get_congr (w := w) (by rw [← hw₃, ← hw₂, ← hw₁]; rfl) (by rw [← hw₃, ← hw₂, ← hw₁]; rfl)]
    · have hlt : d < words := by
        obtain ⟨x, hx, -⟩ := hlooks.grow hg₃
        exact Nat.lt_of_lt_of_le (Array.getElem?_eq_some_iff.1 hx).1 hsize
      rw [← hw₃]
      refine wired_withKeywordSite hwired₂ fun c hcell => CallSite.holds_install _ ?_
      rw [hsite₂, hsite₁, if_pos ⟨rfl, rfl⟩] at hcell
      cases hcell
      rw [toNat_ofNat_of_lt ht, toNat_ofNat_of_lt hlt]
      exact hlooks
    · rw [← hw₃, keywordSite?_withKeywordSite, hsite₂, hsite₁]
      split <;> rfl
    · rw [hcount]
      exact ⟨by simp only [CallSite.install]; omega, by simp only [CallSite.install]; omega⟩

/-! ## Protocol sites -/

theorem mem_of_inherited? {p : Protocol} {method : String} {type : ClassId} {classes : ClassTable} {d : Nat}
    (h : p.inherited? method type classes = some d) : ∃ impl ∈ p.impls, impl.2.2 = d := by
  obtain ⟨hnone, -⟩ | ⟨s, d₁, hsome, hmem, -⟩ := Protocol.inherited?_cases p method type classes
  · rw [hnone] at h
    cases h
  · rw [hsome] at h
    cases h
    exact ⟨(method, s, d), hmem, rfl⟩

theorem mem_of_find? {p : Protocol} {method : String} {type : ClassId} {classes : ClassTable} {d : Nat}
    (h : p.find? method type classes = some d) : ∃ impl ∈ p.impls, impl.2.2 = d := by
  unfold Protocol.find? Protocol.implOn? at h
  obtain h | ⟨-, h⟩ := Option.or_eq_some_iff.1 h
  · obtain ⟨impl, hi, rfl⟩ := Option.map_eq_some_iff.1 h
    exact ⟨impl, List.mem_of_find?_eq_some hi, rfl⟩
  · exact mem_of_inherited? h

/-- In this world the call is answered, or it fails in a way that is not for want of an implementation. -/
def Dispatches (x : Run Answer) (w : World) : Prop :=
  (∃ a, x w = (.value a, w)) ∨ ∃ f : Failure, f.type ≠ ClassId.illegalArgument ∧ x w = raise f w

theorem dispatches_world {f : World → Run Answer} (h : Dispatches (f w) w) : Dispatches (world >>= f) w := h

theorem dispatches_runDispatcher (w : World) (d : Nat) (method : String) (args : List Value) :
    Dispatches (runDispatcher d method args) w := by
  refine dispatches_world ?_
  split
  · exact .inl ⟨_, rfl⟩
  · dsimp only
    split
    · exact .inl ⟨_, rfl⟩
    · exact .inr ⟨_, (by decide : ClassId.arity ≠ ClassId.illegalArgument), rfl⟩
  · split
    · exact .inl ⟨_, rfl⟩
    · exact .inr ⟨_, by decide, rfl⟩
  · exact .inr ⟨_, by decide, rfl⟩
  · exact .inr ⟨_, by decide, rfl⟩

theorem Dispatches.wiring {x : Run Answer} (h : Dispatches x w) : (x w).2.wiring = w.wiring := by
  obtain ⟨a, h⟩ | ⟨f, -, h⟩ := h
  · rw [h]
  · rw [h]
    rfl

theorem protocolInvoke_outOfRange (hc : protocolSite? w unit site = none) (args : List Value) :
    protocolInvoke unit site args w = raise (.internal "protocol site out of range") w := by
  have hc : (loadedUnit w unit).protocolSites[site]? = none := hc
  simp only [protocolInvoke, world_bind, hc]

/-- **A protocol call runs what the protocol finds**, whatever the site remembers. -/
theorem protocolInvoke_spec (hw : w.Wired) {cell : ProtocolSite} (hc : protocolSite? w unit site = some cell) {target : Value}
    (ht : target.classId < words) (args : List Value) :
    ∃ cache generation w', w' = withProtocolSite w unit site (fun c => { c with site := cache, generation := generation }) ∧
      (w.dispatchers.entries.size ≤ words → w'.Wired) ∧
      protocolInvoke unit site (target :: args) w =
        match (w.protocolAt cell.protocol).find? cell.method target.classId w.classes with
        | some d => runDispatcher d cell.method (target :: args) w'
        | none => raise (noImplementation (w.protocolAt cell.protocol) cell.method target) w' := by
  have hfits := (fits_loadedUnit hw unit).protocols site cell hc
  have hc : (loadedUnit w unit).protocolSites[site]? = some cell := hc
  generalize hp : w.protocolAt cell.protocol = protocol
  have hp' : (w.protocols[cell.protocol]?).getD default = protocol := hp
  generalize hcur : (if cell.generation == protocol.generation then cell.site else cell.site.invalidate) = current
  -- what is left in the site is what the protocol finds now
  have hcurrent : current.Holds fun t d => protocol.find? cell.method t.toNat w.classes = some d.toNat := by
    rw [← hcur]
    split
    · rename_i heq
      rw [← hp]
      exact hfits.mono fun t d h => h.2 (hp ▸ eq_of_beq heq)
    · exact CallSite.holds_invalidate _
  obtain ⟨found, current', hl⟩ : ∃ found current', current.lookup (UInt32.ofNat target.classId) = (found, current') := ⟨_, _, rfl⟩
  have hkept : current'.Holds fun t d => protocol.find? cell.method t.toNat w.classes = some d.toNat := by
    have h := hcurrent.lookup (UInt32.ofNat target.classId)
    rw [hl] at h
    exact h
  have hfits' : ∀ c, protocolSite? w unit site = some c → ∀ cache : CallSite,
      cache.Holds (fun t d => protocol.find? cell.method t.toNat w.classes = some d.toNat) →
      ProtocolSite.Fits w { c with site := cache, generation := protocol.generation } := by
    intro c h cache hcache
    rw [protocolSite?, hc] at h
    cases h
    refine hcache.mono fun t d h => ?_
    rw [hp]
    exact ⟨Nat.le_refl _, fun _ => h⟩
  cases found with
  | some d =>
    have hfind : protocol.find? cell.method target.classId w.classes = some d.toNat :=
      toNat_ofNat_of_lt ht ▸ hcurrent _ _ (CallSite.lookup_some (congrArg Prod.fst hl)).1
    refine ⟨current', protocol.generation, _, rfl, fun _ => ?_, ?_⟩
    · exact wired_withProtocolSite hw fun c h => hfits' c h current' hkept
    · rw [hfind]
      simp only [protocolInvoke, world_bind, hc, hp', List.head?_cons, Option.getD_some, hcur, hl]
      rfl
  | none =>
    cases hfind : protocol.find? cell.method target.classId w.classes with
    | none =>
      refine ⟨current', protocol.generation, _, rfl, fun _ => ?_, ?_⟩
      · exact wired_withProtocolSite hw fun c h => hfits' c h current' hkept
      · simp only [protocolInvoke, world_bind, hc, hp', List.head?_cons, Option.getD_some, hcur, hl, hfind]
        rfl
    | some d =>
      refine ⟨current'.install (UInt32.ofNat target.classId) (UInt32.ofNat d), protocol.generation, _, rfl, fun hsize => ?_, ?_⟩
      · have hlt : d < words := by
          obtain ⟨impl, hmem, rfl⟩ := mem_of_find? hfind
          exact Nat.lt_of_lt_of_le (hw.impls cell.protocol impl (hp ▸ hmem)) hsize
        refine wired_withProtocolSite hw fun c h => hfits' c h _ (CallSite.holds_install _ ?_)
        rw [toNat_ofNat_of_lt ht, toNat_ofNat_of_lt hlt, hfind]
      · simp only [protocolInvoke, world_bind, hc, hp', List.head?_cons, Option.getD_some, hcur, hl, hfind]
        exact congrArg (runDispatcher d cell.method (target :: args)) (withProtocolSite_twice w unit site
          (fun c => { c with site := current', generation := protocol.generation })
          (fun c => { c with site := c.site.install (UInt32.ofNat target.classId) (UInt32.ofNat d) }))

end LispMachine.Machine
