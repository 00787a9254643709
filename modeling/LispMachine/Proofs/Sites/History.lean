import LispMachine.Proofs.Run.Preserves
import LispMachine.Proofs.Sites.Invoke
/-!
# Histories of call sites

A history is any sequence of the things that can happen to a world as far as call sites can tell: calls
through sites, extensions of protocols, new protocols, new types and new units, and anything that leaves all
of these alone.  One event keeps the world wired (`Event.wired`), so a whole history does (`wired_after`), and
in a wired world a call through a site is the call without the site.
-/
namespace LispMachine.Machine

open Run World

/-- Something that happens to a world. -/
inductive Event where
  /-- A keyword call in compiled code. -/
  | keyword (unit site : Nat) (target : Value)
  /-- A protocol call in compiled code, on its first argument. -/
  | protocol (unit site : Nat) (target : Value) (args : List Value)
  /-- A protocol is extended to a class. -/
  | extend (type protocol impls : Value)
  | makeProtocol (name methods : Value)
  /-- A type is declared; the methods come with its unit. -/
  | declare (name : String) (fields : List Capture) (reified : Bool)
  | load (u : CompiledUnit)
  /-- Anything that leaves units, classes, protocols and dispatchers alone. -/
  | aside (change : World → World) (apart : ∀ w, (change w).wiring = w.wiring)

namespace Event

/-- The world after the event. -/
def happen : Event → World → World
  | .keyword unit site target, w => (keywordInvoke unit site target w).2
  | .protocol unit site target args, w => (protocolInvoke unit site (target :: args) w).2
  | .extend type p impls, w => (Core.extend type p impls w).2
  | .makeProtocol name methods, w => (Core.makeProtocol name methods w).2
  | .declare name fields reified, w => (w.declareType name fields reified).2
  | .load u, w => (w.load u).2
  | .aside change _, w => change w

/-- The number of the class of a receiver is a half of a word. -/
def Numbered : Event → Prop
  | .keyword _ _ target => target.classId < words
  | .protocol _ _ target _ => target.classId < words
  | _ => True

/-- The event is a call through this keyword site. -/
def Executes (unit site : Nat) (w : World) : Event → Prop
  | .keyword u s _ => u = unit ∧ s = site ∧ (keywordSite? w unit site).isSome
  | _ => False

instance (unit site : Nat) (w : World) (e : Event) : Decidable (e.Executes unit site w) := by
  cases e <;> unfold Executes <;> infer_instance

end Event

/-- The world after a history. -/
def after (w : World) (events : List Event) : World := events.foldl (fun w e => e.happen w) w

theorem after_append (w : World) (es es' : List Event) : after w (es ++ es') = after (after w es) es' := List.foldl_append

/-- How often a history calls through this keyword site. -/
def executions (unit site : Nat) : World → List Event → Nat
  | _, [] => 0
  | w, e :: es => (if e.Executes unit site w then 1 else 0) + executions unit site (e.happen w) es

/-! ## What the events do to the wiring -/

section

variable {I : World → Prop}

theorem stable_nextId (hI : Stable I) (w : World) (n : Nat) (hw : I w) : I { w with nextId := n } := hI.apart hw rfl

theorem preserves_extendOne (hI : Stable I) (p : Nat) (type : ClassId) (method f : Value) :
    Preserves I (Core.extendOne p type method f) := by
  unfold Core.extendOne
  split
  · refine preserves_bind preserves_world fun w => ?_
    dsimp only
    split
    · exact preserves_modify fun w hw => hI.register _ _ _ _ hw
    · exact preserves_raise (stable_nextId hI) _
  · exact preserves_raise (stable_nextId hI) _

theorem preserves_extendAll (hI : Stable I) (p : Nat) (type : ClassId) :
    ∀ impls : List (Value × Value), Preserves I (Core.extendAll p type impls)
  | [] => preserves_pure _
  | (method, f) :: rest => by
    rw [Core.extendAll]
    exact preserves_bind (preserves_extendOne hI p type method f) fun _ => preserves_extendAll hI p type rest

theorem preserves_extend (hI : Stable I) (type protocol impls : Value) : Preserves I (Core.extend type protocol impls) := by
  unfold Core.extend
  refine preserves_bind (preserves_ofExcept (stable_nextId hI) _) fun type => ?_
  split
  · split
    · exact preserves_bind (preserves_extendAll hI _ _ _) fun _ => preserves_pure _
    · exact preserves_raise (stable_nextId hI) _
  · exact preserves_raise (stable_nextId hI) _

theorem preserves_makeProtocol (hI : Stable I)
    (hp : ∀ w name methods, I w → I { w with protocols := w.protocols.push { name, methods } }) (name methods : Value) :
    Preserves I (Core.makeProtocol name methods) := by
  refine preserves_bind (preserves_ofExcept (stable_nextId hI) _) fun name => preserves_bind ?_ fun items =>
    preserves_bind (preserves_ofExcept (stable_nextId hI) _) fun methods => preserves_change fun w hw => hp w _ _ hw
  refine preserves_bind (fun w hw => hI.apart hw rfl) fun id => ?_
  split
  · exact preserves_pure _
  · exact preserves_raise (stable_nextId hI) _

/-- A keyword call changes what finding its dispatcher changes, and caches. -/
theorem preserves_keywordInvoke (hr : ∀ (w : World) (n : Nat), I w → I { w with nextId := n })
    (hu : ∀ (w : World) (units : Array LoadedUnit), I w → I { w with units }) (target : Value)
    (hd : ∀ k, Preserves I (keywordDispatcher k target)) (unit site : Nat) : Preserves I (keywordInvoke unit site target) := by
  refine preserves_bind preserves_world fun w => ?_
  split
  · exact preserves_raise hr _
  · refine preserves_bind (preserves_modify fun w hw => hu w _ hw) fun _ => ?_
    dsimp only
    split
    · refine preserves_bind (preserves_pure _) fun d => ?_
      refine preserves_bind preserves_world fun w => ?_
      split <;> exact preserves_pure _
    · refine preserves_bind (hd _) fun d => ?_
      refine preserves_bind (preserves_modify fun w hw => hu w _ hw) fun _ => ?_
      refine preserves_bind (preserves_pure _) fun d => ?_
      refine preserves_bind preserves_world fun w => ?_
      split <;> exact preserves_pure _

/-- A protocol call changes caches, and the next identity if it fails. -/
theorem preserves_protocolInvoke (ha : ∀ w w' : World, I w → w'.wiring = w.wiring → I w')
    (hu : ∀ (w : World) (units : Array LoadedUnit), I w → I { w with units }) (unit site : Nat) (args : List Value) :
    Preserves I (protocolInvoke unit site args) := by
  have hr : ∀ (w : World) (n : Nat), I w → I { w with nextId := n } := fun w n hw => ha w _ hw rfl
  have hrun : ∀ d method, Preserves I (runDispatcher d method args) :=
    fun d method w hw => ha w _ hw (dispatches_runDispatcher w d method args).wiring
  refine preserves_bind preserves_world fun w => ?_
  split
  · exact preserves_raise hr _
  · refine preserves_bind (preserves_modify fun w hw => hu w _ hw) fun _ => ?_
    dsimp only
    split
    · exact hrun _ _
    · split
      · exact preserves_raise hr _
      · exact preserves_bind (preserves_modify fun w hw => hu w _ hw) fun _ => hrun _ _

end

/-! ## Dispatchers are never lost -/

theorem stable_size (n : Nat) : Stable fun w => n ≤ w.dispatchers.entries.size where
  apart hw h := by
    rw [(wiring_eq_iff.1 h).2.2.2]
    exact hw
  register p method type d hw := Nat.le_trans hw (grows_registerImpl _ p method type d).size_le
  push hw _ _ _ := hw
  attach _ _ hw := hw

theorem preserves_size_keywordDispatcher (n : Nat) (k : Keyword) (target : Value) :
    Preserves (fun w => n ≤ w.dispatchers.entries.size) (keywordDispatcher k target) := by
  unfold keywordDispatcher
  split
  · split
    · refine preserves_bind preserves_world fun w => ?_
      split
      · exact preserves_change fun w hw => Nat.le_trans hw (grows_field w _ _).size_le
      · exact preserves_pure _
    · exact preserves_pure _
  · exact preserves_pure _

theorem size_le_happen (e : Event) (w : World) : w.dispatchers.entries.size ≤ (e.happen w).dispatchers.entries.size := by
  have hs := stable_size w.dispatchers.entries.size
  cases e with
  | keyword unit site target => 
    exact preserves_keywordInvoke (stable_nextId hs) (fun _ _ hw => hw) target (preserves_size_keywordDispatcher _ · target) unit site w
      (Nat.le_refl _)
  | protocol unit site target args => 
    exact preserves_protocolInvoke (fun _ _ => hs.apart) (fun _ _ hw => hw) unit site (target :: args) w (Nat.le_refl _)
  | extend type protocol impls => exact preserves_extend hs type protocol impls w (Nat.le_refl _)
  | makeProtocol name methods => exact preserves_makeProtocol hs (fun _ _ _ hw => hw) name methods w (Nat.le_refl _)
  | declare name fields reified => exact Nat.le_refl _
  | load u => exact hs.load (Nat.le_refl _) u
  | aside change apart => exact hs.apart (Nat.le_refl _) (apart w)

theorem size_le_after : ∀ (es : List Event) (w : World), w.dispatchers.entries.size ≤ (after w es).dispatchers.entries.size
  | [], _ => Nat.le_refl _
  | e :: es, w => Nat.le_trans (size_le_happen e w) (size_le_after es (e.happen w))

/-! ## Histories keep worlds wired -/

/-- **An event keeps the world wired** as long as the numbers of the dispatchers are halves of words. -/
theorem Event.wired {e : Event} {w : World} (hw : w.Wired) (he : e.Numbered)
    (hsize : (e.happen w).dispatchers.entries.size ≤ words) : (e.happen w).Wired := by
  have hs := stable_wired w
  cases e with
  | keyword unit site target =>
    cases hc : keywordSite? w unit site with
    | none =>
      rw [happen, keywordInvoke_outOfRange hc]
      exact hw.of_wiring rfl
    | some cell =>
      obtain ⟨w', c', hr, -, hwired, -⟩ := keywordInvoke_spec hw hc he
      rw [happen, hr] at hsize ⊢
      exact hwired hsize
  | protocol unit site target args =>
    cases hc : protocolSite? w unit site with
    | none =>
      rw [happen, protocolInvoke_outOfRange hc]
      exact hw.of_wiring rfl
    | some cell =>
      obtain ⟨cache, generation, w', -, hwired, hr⟩ := protocolInvoke_spec hw hc he args
      have hbefore := Nat.le_trans (size_le_happen (.protocol unit site target args) w) hsize
      have hw' := hwired hbefore
      rw [happen, hr]
      split
      · exact hw'.of_wiring (dispatches_runDispatcher w' _ _ _).wiring
      · exact hw'.of_wiring rfl
  | extend type protocol impls => exact (preserves_extend hs type protocol impls w ⟨hw, .refl w⟩).1
  | makeProtocol name methods =>
    refine (preserves_makeProtocol hs (fun w name methods h => ?_) name methods w ⟨hw, .refl w⟩).1
    exact ⟨h.1.pushProtocol name methods, h.2.trans (grows_pushProtocol w name methods)⟩
  | declare name fields reified => exact hw.declareType name fields reified
  | load u => exact (hw.load u).1
  | aside change apart => exact hw.of_wiring (apart w)

/-- **A history keeps the world wired.** -/
theorem wired_after : ∀ (es : List Event) {w : World}, w.Wired → (∀ e ∈ es, e.Numbered) →
    (after w es).dispatchers.entries.size ≤ words → (after w es).Wired
  | [], _, hw, _, _ => hw
  | e :: es, w, hw, hn, hsize => by
    refine wired_after es (Event.wired hw ?_ ?_) (fun e' he' => hn e' (List.mem_cons_of_mem _ he')) hsize
    · exact hn e List.mem_cons_self
    · exact Nat.le_trans (size_le_after es _) hsize

/-! ## Counters -/

/-- The cache of a keyword site, or a fresh one if there is no such site yet. -/
def cacheAt (w : World) (unit site : Nat) : CallSite := ((keywordSite? w unit site).map (·.site)).getD {}

theorem cacheAt_of_units {w w' : World} (h : w'.units = w.units) (unit site : Nat) : cacheAt w' unit site = cacheAt w unit site := by
  simp only [cacheAt, keywordSite?, loadedUnit, h]

/-- A new site starts with a fresh cache. -/
theorem cacheAt_push (w : World) (u : CompiledUnit) (linked : List (Value × Option HostMember)) (sites : List ProtocolSite)
    (nested : List Nat) (unit site : Nat) :
    cacheAt { w with units := w.units.push (loadedAs u linked sites nested) } unit site = cacheAt w unit site := by
  simp only [cacheAt, keywordSite?, loadedUnit, Array.getElem?_push]
  by_cases hu : unit = w.units.size
  · rw [if_pos hu, hu, Array.getElem?_eq_none (Nat.le_refl _)]
    have hnone : (default : LoadedUnit).keywordSites[site]? = none := rfl
    simp only [Option.getD_some, Option.getD_none, loadedAs, Array.getElem?_map, hnone]
    cases u.keywordSites[site]? <;> rfl
  · rw [if_neg hu]

theorem stable_cacheAt (unit site : Nat) (c : CallSite) : Stable fun w => cacheAt w unit site = c where
  apart hw h := (cacheAt_of_units (wiring_eq_iff.1 h).1 unit site).trans hw
  register _ _ _ _ hw := hw
  push hw _ _ _ := (cacheAt_push _ _ _ _ _ unit site).trans hw
  attach _ _ hw := hw

/-- An event counts at a keyword site if it is a call through it. -/
theorem cacheAt_happen {e : Event} {w : World} (hw : w.Wired) (he : e.Numbered) (unit site : Nat) :
    (e.Executes unit site w ∧ Counted (cacheAt w unit site) (cacheAt (e.happen w) unit site)) ∨
      (¬ e.Executes unit site w ∧ cacheAt (e.happen w) unit site = cacheAt w unit site) := by
  have hs := stable_cacheAt unit site (cacheAt w unit site)
  cases e with
  | keyword u s target =>
    cases hc : keywordSite? w u s with
    | none =>
      refine .inr ⟨?_, ?_⟩
      · rintro ⟨rfl, rfl, h⟩
        rw [hc] at h
        cases h
      · rw [Event.happen, keywordInvoke_outOfRange hc]
        exact cacheAt_of_units rfl unit site
    | some cell =>
      obtain ⟨w', c', hr, -, -, hsites, hcounted⟩ := keywordInvoke_spec hw hc he
      rw [Event.happen, hr]
      by_cases h : u = unit ∧ s = site
      · obtain ⟨rfl, rfl⟩ := h
        refine .inl ⟨⟨rfl, rfl, by rw [hc]; rfl⟩, ?_⟩
        rw [cacheAt, cacheAt, hsites, if_pos ⟨rfl, rfl⟩, hc]
        exact hcounted
      · refine .inr ⟨fun h' => h ⟨h'.1, h'.2.1⟩, ?_⟩
        rw [cacheAt, cacheAt, hsites, if_neg h]
  | protocol u s target args =>
    refine .inr ⟨id, ?_⟩
    cases hc : protocolSite? w u s with
    | none =>
      rw [Event.happen, protocolInvoke_outOfRange hc]
      exact cacheAt_of_units rfl unit site
    | some cell =>
      obtain ⟨cache, generation, w', rfl, -, hr⟩ := protocolInvoke_spec hw hc he args
      have hsame : ∀ x : World, x.units = (withProtocolSite w u s (fun c => { c with site := cache, generation := generation })).units →
          cacheAt x unit site = cacheAt w unit site := fun x hx => by
        rw [cacheAt_of_units hx, cacheAt, keywordSite?_withProtocolSite, ← cacheAt]
      rw [Event.happen, hr]
      split
      · exact hsame _ (wiring_eq_iff.1 (dispatches_runDispatcher _ _ _ _).wiring).1
      · exact hsame _ rfl
  | extend type protocol impls => exact .inr ⟨id, preserves_extend hs type protocol impls w rfl⟩
  | makeProtocol name methods => exact .inr ⟨id, preserves_makeProtocol hs (fun _ _ _ hw => hw) name methods w rfl⟩
  | declare name fields reified => exact .inr ⟨id, cacheAt_of_units rfl unit site⟩
  | load u => exact .inr ⟨id, hs.load rfl u⟩
  | aside change apart => exact .inr ⟨id, hs.apart rfl (apart w)⟩

/-- The counters after a history. -/
theorem cacheAt_after (unit site : Nat) : ∀ (es : List Event) {w : World}, w.Wired → (∀ e ∈ es, e.Numbered) →
    (after w es).dispatchers.entries.size ≤ words →
    (cacheAt (after w es) unit site).hits + (cacheAt (after w es) unit site).misses =
        (cacheAt w unit site).hits + (cacheAt w unit site).misses + executions unit site w es ∧
      (cacheAt (after w es) unit site).updates + (cacheAt w unit site).misses =
        (cacheAt w unit site).updates + (cacheAt (after w es) unit site).misses
  | [], _, _, _, _ => ⟨rfl, rfl⟩
  | e :: es, w, hw, hn, hsize => by
    have he := hn e List.mem_cons_self
    have hw' : (e.happen w).Wired := e.wired hw he (Nat.le_trans (size_le_after es _) hsize)
    obtain ⟨hcount, hupdate⟩ := cacheAt_after unit site es hw' (fun e' h => hn e' (List.mem_cons_of_mem _ h)) hsize
    have hafter : after w (e :: es) = after (e.happen w) es := rfl
    rw [hafter, executions]
    obtain ⟨hexec, hstep⟩ | ⟨hexec, hstep⟩ := cacheAt_happen hw he unit site
    · rw [if_pos hexec]
      obtain ⟨hstep, hstep'⟩ := hstep
      constructor <;> omega
    · rw [if_neg hexec]
      rw [hstep] at hcount hupdate
      constructor <;> omega

/-! ## Histories of sessions -/

theorem wiring_defineCore (w : World) (name : String) (f : Var → Var) : (w.defineCore name f).wiring = w.wiring :=
  wiring_intern w coreNs name

theorem wiring_initial : World.initial.wiring = World.bare.wiring := by
  have hfold : ∀ {α : Type} (g : World → α → World), (∀ w a, (g w a).wiring = w.wiring) →
      ∀ (as : List α) (w : World), (as.foldl g w).wiring = w.wiring := by
    intro α g hg as
    induction as with
    | nil => exact fun _ => rfl
    | cons a as ih => exact fun w => (ih (g w a)).trans (hg w a)
  unfold World.initial
  rw [hfold _ fun w e => wiring_defineCore w _ _, hfold _ fun w f => wiring_defineCore w _ _]

theorem wired_initial : World.initial.Wired := by
  have hbare : World.bare.Wired := by
    refine ⟨ClassTable.grounded_initial, rfl, fun _ _ _ h => (by cases h), fun p impl h => ?_, fun _ _ h => (by cases h)⟩
    simp only [protocolAt, bare] at h
    cases h
  exact hbare.of_wiring wiring_initial

theorem cacheAt_initial (unit site : Nat) : cacheAt World.initial unit site = {} := by
  rw [cacheAt_of_units (wiring_eq_iff.1 wiring_initial).1]
  rfl

/-- **Keyword sites are transparent.**  In every history of a session, each call through a keyword site of a
loaded unit gives what the keyword finds in the receiver at that moment, and at the end hits and misses add up
to the calls, and updates to the misses. -/
theorem keywordSite_transparent (es : List Event) (hnum : ∀ e ∈ es, e.Numbered)
    (hsize : (after World.initial es).dispatchers.entries.size ≤ words) (unit site : Nat) :
    (∀ pre target post cell, es = pre ++ .keyword unit site target :: post →
      keywordSite? (after World.initial pre) unit site = some cell →
      (keywordInvoke unit site target (after World.initial pre)).1 =
        .value (Coll.get (after World.initial pre) target (.keyword cell.keyword) .nil)) ∧
    ∀ cell, keywordSite? (after World.initial es) unit site = some cell →
      cell.site.hits + cell.site.misses = executions unit site World.initial es ∧ cell.site.updates = cell.site.misses := by
  refine ⟨fun pre target post cell hes hcell => ?_, fun cell hcell => ?_⟩
  · have hpre : (after World.initial pre).dispatchers.entries.size ≤ words := by
      rw [hes, after_append] at hsize
      exact Nat.le_trans (size_le_after _ _) hsize
    have hw := wired_after _ wired_initial (fun e he => hnum e (hes ▸ List.mem_append_left _ he)) hpre
    have htarget : (Event.keyword unit site target).Numbered := hnum _ (by rw [hes]; simp)
    obtain ⟨w', c', hr, -⟩ := keywordInvoke_spec hw hcell htarget
    rw [hr]
  · have hcache : cacheAt (after World.initial es) unit site = cell.site := by
      rw [cacheAt, hcell]
      rfl
    have h := cacheAt_after unit site es wired_initial hnum hsize
    simp only [hcache, cacheAt_initial] at h
    omega

/-- A unit with one keyword site. -/
def readerOf (k : Keyword) : CompiledUnit := ⟨"reader", .fn false, [], [], #[], #[k], #[], []⟩

/-- The site after a hit. -/
theorem keywordSite?_of_hit {w : World} {unit site : Nat} {cell : KeywordSite} (hc : keywordSite? w unit site = some cell) (target : Value)
    (d : UInt32) (current : CallSite) (hl : cell.site.lookup (UInt32.ofNat target.classId) = (some d, current)) :
    keywordSite? (keywordInvoke unit site target w).2 unit site = some { cell with site := current } := by
  rw [keywordInvoke_hit hc hl rfl, keywordSite?_withKeywordSite, if_pos ⟨rfl, rfl⟩, hc]
  rfl

/-- The site after a miss that makes no new dispatcher. -/
theorem keywordSite?_of_miss {w : World} {unit site : Nat} {cell : KeywordSite} (hc : keywordSite? w unit site = some cell) (target : Value)
    (d : Nat) (current : CallSite) (hl : cell.site.lookup (UInt32.ofNat target.classId) = (none, current))
    (hd : ∀ w, keywordDispatcher cell.keyword target w = (.value d, w)) :
    keywordSite? (keywordInvoke unit site target w).2 unit site =
      some { cell with site := current.install (UInt32.ofNat target.classId) (UInt32.ofNat d) } := by
  rw [keywordInvoke_miss hc hl rfl (hd _) rfl, keywordSite?_withKeywordSite, if_pos ⟨rfl, rfl⟩, keywordSite?_withKeywordSite,
    if_pos ⟨rfl, rfl⟩, hc]
  rfl

def mapOfOne : Value := .map 7 [(.keyword ⟨none, "a"⟩, .long 1)]

def setOfOne : Value := .set 8 [.keyword ⟨none, "a"⟩]

/-- The map is read twice, and once more after the set. -/
def readings : List Event :=
  [.load (readerOf ⟨none, "a"⟩), .keyword 0 0 mapOfOne, .keyword 0 0 mapOfOne, .keyword 0 0 setOfOne, .keyword 0 0 mapOfOne]

/-- The second reading is a hit; the class changes for the third one and for the fourth. -/
theorem keywordSite?_readings {w : World} (h : w.units = #[]) :
    keywordSite? (after w (readings.take 1)) 0 0 = some ⟨⟨none, "a"⟩, {}⟩ ∧
    keywordSite? (after w (readings.take 2)) 0 0 = some ⟨⟨none, "a"⟩, ⟨CallSite.pack 13 0, 0, 1, 1⟩⟩ ∧
    keywordSite? (after w (readings.take 3)) 0 0 = some ⟨⟨none, "a"⟩, ⟨CallSite.pack 13 0, 1, 1, 1⟩⟩ ∧
    keywordSite? (after w (readings.take 4)) 0 0 = some ⟨⟨none, "a"⟩, ⟨CallSite.pack 14 0, 1, 2, 2⟩⟩ ∧
    keywordSite? (after w readings) 0 0 = some ⟨⟨none, "a"⟩, ⟨CallSite.pack 13 0, 1, 3, 3⟩⟩ := by
  have hload : (w.load (readerOf ⟨none, "a"⟩)).2 = { w with units := w.units.push (loadedAs (readerOf ⟨none, "a"⟩) [] [] []) } := rfl
  have h₁ : keywordSite? (after w (readings.take 1)) 0 0 = some ⟨⟨none, "a"⟩, {}⟩ := by
    simp only [readings, List.take, after, List.foldl_cons, List.foldl_nil, Event.happen, hload, h]
    simp [keywordSite?, loadedUnit, loadedAs, readerOf]
  have h₂ := keywordSite?_of_miss h₁ mapOfOne 0 ⟨0, 0, 1, 0⟩ (by decide) (fun _ => rfl)
  have h₃ := keywordSite?_of_hit h₂ mapOfOne 0 ⟨CallSite.pack 13 0, 1, 1, 1⟩ (by decide)
  have h₄ := keywordSite?_of_miss h₃ setOfOne 0 ⟨CallSite.pack 13 0, 1, 2, 1⟩ (by decide) (fun _ => rfl)
  have h₅ := keywordSite?_of_miss h₄ mapOfOne 0 ⟨CallSite.pack 14 0, 1, 3, 2⟩ (by decide) (fun _ => rfl)
  exact ⟨h₁, h₂, h₃, h₄, h₅⟩

theorem executions_readings {w : World} (h : w.units = #[]) : executions 0 0 w readings = 4 := by
  obtain ⟨h₁, h₂, h₃, h₄, -⟩ := keywordSite?_readings h
  have hexecutes : ∀ {w : World} {cell : KeywordSite} (target : Value), keywordSite? w 0 0 = some cell →
      (Event.keyword 0 0 target).Executes 0 0 w := fun _ hc => ⟨rfl, rfl, hc ▸ rfl⟩
  simp only [readings, List.take, after, List.foldl_cons, List.foldl_nil] at h₁ h₂ h₃ h₄
  rw [readings, executions, if_neg (id : ¬ Event.Executes 0 0 w (.load (readerOf ⟨none, "a"⟩))), executions, if_pos (hexecutes _ h₁),
    executions, if_pos (hexecutes _ h₂), executions, if_pos (hexecutes _ h₃), executions, if_pos (hexecutes _ h₄), executions]

theorem dispatchers_readings (w : World) : (after w readings).dispatchers = w.dispatchers := by
  have hread : ∀ target, (∀ k w, (keywordDispatcher k target w).2 = w) → ∀ w, (keywordInvoke 0 0 target w).2.dispatchers = w.dispatchers :=
    fun target hd w => preserves_keywordInvoke (I := fun w' => w'.dispatchers = w.dispatchers) (fun _ _ h => h) (fun _ _ h => h) target
      (fun k w' h => by rw [hd]; exact h) 0 0 w rfl
  simp only [readings, after, List.foldl_cons, List.foldl_nil, Event.happen]
  rw [hread mapOfOne fun _ _ => rfl, hread setOfOne fun _ _ => rfl, hread mapOfOne fun _ _ => rfl, hread mapOfOne fun _ _ => rfl]
  rfl

theorem keywordSite_transparent_map :
    (keywordInvoke 0 0 mapOfOne (after World.initial (readings.take 2))).1 = .value (.long 1) ∧
    (keywordInvoke 0 0 setOfOne (after World.initial (readings.take 3))).1 = .value (.keyword ⟨none, "a"⟩) ∧
    ∃ cell, keywordSite? (after World.initial readings) 0 0 = some cell ∧ cell.site.hits = 1 ∧
      cell.site.hits + cell.site.misses = 4 ∧ cell.site.updates = cell.site.misses := by
  obtain ⟨hu, -, -, hd⟩ := wiring_eq_iff.1 wiring_initial
  obtain ⟨-, h₂, h₃, -, h₅⟩ := keywordSite?_readings hu
  have hnum : ∀ e ∈ readings, e.Numbered := by
    simp [readings, mapOfOne, setOfOne, Event.Numbered, Value.classId, words, UInt32.size, ClassId.map, ClassId.set]
  have hsize : (after World.initial readings).dispatchers.entries.size ≤ words := by
    rw [dispatchers_readings, hd]
    decide
  obtain ⟨hreads, hcounts⟩ := keywordSite_transparent readings hnum hsize 0 0
  refine ⟨?_, ?_, _, h₅, rfl, ?_⟩
  · rw [hreads (readings.take 2) mapOfOne (readings.drop 3) _ rfl h₂]
    simp [mapOfOne, Coll.get, Value.Entries.find?, Value.equiv, Value.identical]
  · rw [hreads (readings.take 3) setOfOne (readings.drop 4) _ rfl h₃]
    simp [setOfOne, Coll.get, Value.Members.contains, Value.equiv, Value.identical]
  · rw [← executions_readings hu]
    exact hcounts _ h₅

/-- **Protocol sites are transparent.**  In every history of a session, each call through a protocol site of a
loaded unit runs the dispatcher that the protocol finds for the class of the receiver at that moment, and fails
for want of an implementation just if the protocol finds none. -/
theorem protocolSite_transparent (es : List Event) (hnum : ∀ e ∈ es, e.Numbered)
    (hsize : (after World.initial es).dispatchers.entries.size ≤ words) (unit site : Nat) (pre post : List Event)
    (target : Value) (args : List Value) (hes : es = pre ++ .protocol unit site target args :: post)
    (w : World) (hw : w = after World.initial pre) (cell : ProtocolSite) (hcell : protocolSite? w unit site = some cell)
    (found : Option Nat) (hfound : found = (w.protocolAt cell.protocol).find? cell.method target.classId w.classes) :
    (∀ d, found = some d → ∃ cache generation, protocolInvoke unit site (target :: args) w =
      runDispatcher d cell.method (target :: args)
        (withProtocolSite w unit site fun c => { c with site := cache, generation := generation })) ∧
    ((∃ id, (protocolInvoke unit site (target :: args) w).1 =
      .thrown (exceptionOf id (noImplementation (w.protocolAt cell.protocol) cell.method target))) ↔ found = none) := by
  have hpre : (after World.initial pre).dispatchers.entries.size ≤ words := by
    rw [hes, after_append] at hsize
    exact Nat.le_trans (size_le_after _ _) hsize
  have hwired : w.Wired := by
    rw [hw]
    exact wired_after _ wired_initial (fun e he => hnum e (hes ▸ List.mem_append_left _ he)) hpre
  have htarget : (Event.protocol unit site target args).Numbered := hnum _ (by rw [hes]; simp)
  obtain ⟨cache, generation, w', hw', -, hr⟩ := protocolInvoke_spec hwired hcell htarget args
  rw [← hfound] at hr
  cases found with
  | none =>
    refine ⟨fun d h => (by cases h), ⟨fun _ => rfl, fun _ => ?_⟩⟩
    rw [hr]
    exact ⟨_, rfl⟩
  | some d =>
    refine ⟨fun d' h => ?_, ⟨fun h => ?_, fun h => (by cases h)⟩⟩
    · cases h
      exact ⟨cache, generation, by rw [hr, hw']⟩
    · obtain ⟨id, h⟩ := h
      rw [hr] at h
      obtain ⟨a, ha⟩ | ⟨f, hf, ha⟩ := dispatches_runDispatcher w' d cell.method (target :: args)
      · simp only [ha] at h
        cases h
      · simp only [ha, raise, exceptionOf, Outcome.thrown.injEq, Value.exception.injEq] at h
        exact absurd h.2.1 hf

/-- A protocol is made, a unit that calls its method is loaded, and the method is implemented for longs. -/
def areaHistory (f : Value) : List Event := [
  .makeProtocol (.symbol ⟨none, "Shape"⟩ none) (.list 0 [.symbol ⟨none, "area"⟩ none]),
  .aside (fun w => { w with vars := #[{ name := ⟨some userNs, "area"⟩, root := some (.protocolMethod 0 0 "area") }]
                            namespaces := [{ name := userNs, vars := [("area", 0)] }] }) fun _ => rfl,
  .load ⟨"caller", .fn false, [], [], #[], #[], #[⟨some userNs, "area"⟩], []⟩,
  .extend (.type ClassId.long "Long") (.protocol 0 ⟨some userNs, "Shape"⟩) (.map 0 [(.keyword ⟨none, "area"⟩, f)])]

theorem after_areaHistory {w : World} (hu : w.units = #[]) (hp : w.protocols = #[]) (hd : w.dispatchers = {}) (f : Value) :
    protocolSite? (after w (areaHistory f)) 0 0 = some ⟨0, "area", {}, 0⟩ ∧
    (after w (areaHistory f)).protocols = #[⟨⟨some w.current, "Shape"⟩, ["area"], [("area", ClassId.long, 1)], 1⟩] ∧
    (after w (areaHistory f)).dispatchers = ⟨#[.lookup, .fn f], []⟩ := by
  cases w
  simp only at hu hp hd
  subst hu hp hd
  exact ⟨rfl, rfl, rfl⟩

theorem dispatchers_protocol (w : World) (unit site : Nat) (target : Value) (args : List Value) :
    (after w [.protocol unit site target args]).dispatchers = w.dispatchers :=
  preserves_protocolInvoke (I := fun w' => w'.dispatchers = w.dispatchers)
    (fun _ _ hw h => (wiring_eq_iff.1 h).2.2.2.trans hw) (fun _ _ hw => hw) unit site (target :: args) w rfl

theorem protocolSite_transparent_long :
    (protocolInvoke 0 0 [.long 3] (after World.initial (areaHistory (.native (.fn .inc))))).1 =
      .value (.again (.native (.fn .inc)) [.long 3]) := by
  obtain ⟨hu, -, hp, hd⟩ := wiring_eq_iff.1 wiring_initial
  obtain ⟨hcell, hprotocols, hdispatchers⟩ := after_areaHistory hu hp hd (.native (.fn .inc))
  have hsize : (after World.initial (areaHistory (.native (.fn .inc)) ++ [.protocol 0 0 (.long 3) []])).dispatchers.entries.size ≤ words := by
    rw [after_append, dispatchers_protocol, hdispatchers]
    decide
  have hnum : ∀ e ∈ areaHistory (.native (.fn .inc)) ++ [.protocol 0 0 (.long 3) []], e.Numbered := by
    simp [areaHistory, Event.Numbered, Value.classId, words, UInt32.size, ClassId.long]
  obtain ⟨cache, generation, hrun⟩ := (protocolSite_transparent _ hnum hsize 0 0 _ [] (.long 3) [] rfl _ rfl _ hcell _ rfl).1 1
    (by rw [protocolAt, hprotocols]; rfl)
  rw [hrun, runDispatcher, world_bind, dispatchers_withProtocolSite, hdispatchers]
  rfl

end LispMachine.Machine
