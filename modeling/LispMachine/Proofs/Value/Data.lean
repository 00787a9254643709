import LispMachine.Proofs.Form.Equality
import LispMachine.Value.OfForm
import LispMachine.Value.Printer
/-!
# Forms as data

A value `Mirrors` a form if it holds the same atoms in collections of the same kinds and in the same order.  Values
that mirror forms are equal when the forms are (`Mirrors.equiv_eq`), have the same code and the same text, and turn into
forms again.  A regular form is mirrored by the value that it denotes as data (`Reads.mirrors`): its maps and sets hold
nothing twice, and so nothing is lost when their members are put in one after the other (`ofForm_corresponds`).
-/
namespace LispMachine.Value

/-- The same atoms in the same order, in collections of the same kinds; metadata and identities do not count. -/
inductive Mirrors : Form → Value → Prop
  | nil : Mirrors .nil .nil
  | bool (b : Bool) : Mirrors (.bool b) (.bool b)
  | long (n : Int64) : Mirrors (.long n) (.long n)
  | double (d : Float) : Mirrors (.double d) (.double d)
  | char (c : Char) : Mirrors (.char c) (.char c)
  | str (s : String) : Mirrors (.str s) (.str s)
  | keyword (k : Keyword) : Mirrors (.keyword k) (.keyword k)
  | symbol (s : Symbol) (info info' : Option Form.Info) : Mirrors (.symbol s info) (.symbol s info')
  | list {xs : List Form} {vs : List Value} (h : xs.Forall₂ Mirrors vs) (info : Option Form.Info) (id : Nat) :
      Mirrors (.list xs info) (.list id vs)
  | vector {xs : List Form} {vs : List Value} (h : xs.Forall₂ Mirrors vs) (info : Option Form.Info) (id : Nat) :
      Mirrors (.vector xs info) (.vector id vs)
  | set {xs : List Form} {vs : List Value} (h : xs.Forall₂ Mirrors vs) (info : Option Form.Info) (id : Nat) :
      Mirrors (.set xs info) (.set id vs)
  | map {ps : List (Form × Form)} {es : List (Value × Value)} (hk : (ps.map (·.1)).Forall₂ Mirrors (es.map (·.1)))
      (hv : (ps.map (·.2)).Forall₂ Mirrors (es.map (·.2))) (info : Option Form.Info) (id : Nat) :
      Mirrors (.map ps info) (.map id es)

/-- The keys and the values of two entries. -/
def MirrorsEntry (p : Form × Form) (e : Value × Value) : Prop := Mirrors p.1 e.1 ∧ Mirrors p.2 e.2

variable {f g : Form} {v w : Value} {xs ys : List Form} {vs ws : List Value} {ps qs : List (Form × Form)}
  {es ds : List (Value × Value)} {info : Option Form.Info} {id : Nat} {builders : Array String}

theorem mirrors_map : Mirrors (.map ps info) (.map id es) ↔ ps.Forall₂ MirrorsEntry es := by
  have hsplit : ps.Forall₂ MirrorsEntry es ↔
      (ps.map (·.1)).Forall₂ Mirrors (es.map (·.1)) ∧ (ps.map (·.2)).Forall₂ Mirrors (es.map (·.2)) := by
    simp only [List.forall₂_map_left_iff, List.forall₂_map_right_iff]
    exact ⟨fun h => ⟨h.imp fun _ _ h => h.1, h.imp fun _ _ h => h.2⟩, fun h => h.1.mp (fun _ _ hk hv => ⟨hk, hv⟩) h.2⟩
  rw [hsplit]
  exact ⟨fun h => by cases h with | map hk hv => exact ⟨hk, hv⟩, fun h => .map h.1 h.2 info id⟩

/-! ## Equality -/

theorem any_eq {α β : Type} {r : α → β → Prop} {as : List α} {bs : List β} {p : α → Bool} {q : β → Bool}
    (h : ∀ a b, r a b → q b = p a) (hr : as.Forall₂ r bs) : bs.any q = as.any p := by
  induction hr with
  | nil => rfl
  | cons hr _ ih => rw [List.any_cons, List.any_cons, h _ _ hr, ih]

/-- What equality of a form with any other one says about the value that mirrors it. -/
def Agrees (f : Form) : Prop := ∀ {v w g}, Mirrors f v → Mirrors g w → equiv v w = f.beq g

theorem sameItems_eq (h : ∀ x ∈ xs, Agrees x) (hvs : xs.Forall₂ Mirrors vs) (hws : ys.Forall₂ Mirrors ws) :
    sameItems vs ws = Form.sameItems xs ys := by
  induction hvs generalizing ys ws with
  | nil => cases hws <;> simp only [sameItems, Form.sameItems]
  | cons hv _ ih =>
    obtain ⟨hx, hxs⟩ := List.forall_mem_cons.mp h
    cases hws with
    | nil => simp only [sameItems, Form.sameItems]
    | cons hw hws => rw [sameItems, Form.sameItems, hx hv hw, ih hxs hws]

theorem allAmong_eq (h : ∀ x ∈ xs, Agrees x) (hvs : xs.Forall₂ Mirrors vs) (hws : ys.Forall₂ Mirrors ws) :
    allAmong vs ws = Form.allAmong xs ys := by
  induction hvs with
  | nil => simp only [allAmong, Form.allAmong]
  | cons hv _ ih =>
    obtain ⟨hx, hxs⟩ := List.forall_mem_cons.mp h
    rw [allAmong, Form.allAmong, any_eq (fun _ _ hw => hx hv hw) hws, ih hxs]

theorem pairsAmong_eq (h : ∀ p ∈ ps, Agrees p.1 ∧ Agrees p.2) (hes : ps.Forall₂ MirrorsEntry es)
    (hds : qs.Forall₂ MirrorsEntry ds) : pairsAmong es ds = Form.pairsAmong ps qs := by
  induction hes with
  | nil => simp only [pairsAmong, Form.pairsAmong]
  | cons he _ ih =>
    obtain ⟨⟨hk, hv⟩, hps⟩ := List.forall_mem_cons.mp h
    have hany := any_eq (fun q d (hd : MirrorsEntry q d) => congrArg₂ (· && ·) (hk he.1 hd.1) (hv he.2 hd.2)) hds
    rw [pairsAmong, Form.pairsAmong, hany, ih hps]

theorem agrees (f : Form) : Agrees f := by
  induction f using Form.induct with
  | atom f hf =>
    intro v w g hv hw
    cases hv with
    | nil | bool | long | double | char | str | keyword | symbol => cases hw <;> simp only [equiv, identical, Form.beq]
    | list | vector | set | map => cases hf
  | list xs info ih | vector xs info ih =>
    intro v w g hv hw
    cases hv
    cases hw <;> simp only [equiv, identical, Form.beq]
    -- a list or a vector on both sides
    all_goals exact sameItems_eq ih ‹_› ‹_›
  | set xs info ih =>
    intro v w g hv hw
    cases hv with
    | set hvs =>
      cases hw with
      | set hws => rw [equiv, Form.beq, allAmong_eq ih hvs hws, hvs.length_eq, hws.length_eq]
      | _ => simp only [equiv, identical, Form.beq]
  | map ps info ih =>
    intro v w g hv hw
    cases v with
    | map id es =>
      have hes := mirrors_map.mp hv
      cases w with
      | map id' ds =>
        cases g with
        | map qs info' =>
          have hds := mirrors_map.mp hw
          rw [equiv, Form.beq, pairsAmong_eq ih hes hds, hes.length_eq, hds.length_eq]
        | _ => cases hw
      | _ => cases hw <;> simp only [equiv, identical, Form.beq]
    | _ => cases hv

/-- **Equality is the same** for forms and for the values that mirror them. -/
theorem Mirrors.equiv_eq (hv : Mirrors f v) (hw : Mirrors g w) : equiv v w = f.beq g := agrees f hv hw

/-! ## Codes -/

theorem hashes_eq : ∀ vs : List Value, hashes vs = vs.map hash
  | [] => rfl
  | v :: vs => congrArg (hash v :: ·) (hashes_eq vs)

/-- The code of an entry of a map. -/
def entryHash (e : Value × Value) : Int32 := Hash.ordered [e.1.hash, e.2.hash]

theorem pairHashes_eq : ∀ es : List (Value × Value), pairHashes es = es.map entryHash
  | [] => rfl
  | e :: es => congrArg (entryHash e :: ·) (pairHashes_eq es)

/-- **The code is the same.** -/
theorem Mirrors.hash_eq (h : Mirrors f v) : v.hash = f.hash := by
  induction f using Form.induct generalizing v with
  | atom f hf =>
    cases h with
    | nil | bool | long | double | char | str | keyword | symbol => simp only [hash, Form.hash]
    | list | vector | set | map => cases hf
  | list xs info ih | vector xs info ih | set xs info ih =>
    cases h
    rename_i hvs
    have hcodes := Form.map_hash_eq (fun x hx v hv => (ih x hx (v := v) hv).symm) hvs
    simp only [hash, Form.hash, hashes_eq, Form.hashes_eq, hcodes]
  | map ps info ih =>
    cases v with
    | map id es =>
      have hcode : ∀ p ∈ ps, ∀ e, MirrorsEntry p e → Form.entryHash p = entryHash e := by
        intro p hp e he
        rw [Form.entryHash, entryHash, (ih p hp).1 he.1, (ih p hp).2 he.2]
      rw [hash, Form.hash, pairHashes_eq, Form.pairHashes_eq, Form.map_hash_eq hcode (mirrors_map.mp h)]
    | _ => cases h

/-! ## Texts -/

theorem renderItems_eq (h : ∀ x ∈ xs, ∀ {v}, Mirrors x v → v.render builders = x.render)
    (hvs : xs.Forall₂ Mirrors vs) : renderItems builders vs = Form.renderItems xs := by
  induction hvs with
  | nil => rfl
  | cons hv hvs ih =>
    obtain ⟨hx, hxs⟩ := List.forall_mem_cons.mp h
    have hrest := ih hxs
    cases hvs with
    | nil => exact hx hv
    | cons => exact congrArg₂ (· ++ " " ++ ·) (hx hv) hrest

theorem renderPairs_eq (h : ∀ p ∈ ps, (∀ {v}, Mirrors p.1 v → v.render builders = p.1.render) ∧
    ∀ {v}, Mirrors p.2 v → v.render builders = p.2.render) (hes : ps.Forall₂ MirrorsEntry es) :
    renderPairs builders es = Form.renderPairs ps := by
  induction hes with
  | nil => rfl
  | cons he hes ih =>
    obtain ⟨⟨hk, hv⟩, hps⟩ := List.forall_mem_cons.mp h
    have hrest := ih hps
    have hentry := congrArg₂ (· ++ " " ++ ·) (hk he.1) (hv he.2)
    cases hes with
    | nil => exact hentry
    | cons => exact congrArg₂ (· ++ ", " ++ ·) hentry hrest

/-- **The text is the same.** -/
theorem Mirrors.render_eq (h : Mirrors f v) : v.render builders = f.render := by
  induction f using Form.induct generalizing v with
  | atom f hf =>
    cases h with
    | nil | bool | long | double | char | str | keyword | symbol => rfl
    | list | vector | set | map => cases hf
  | list xs info ih =>
    cases h with
    | list hvs => exact congrArg ("(" ++ · ++ ")") (renderItems_eq (fun x hx _ => ih x hx) hvs)
  | vector xs info ih =>
    cases h with
    | vector hvs => exact congrArg ("[" ++ · ++ "]") (renderItems_eq (fun x hx _ => ih x hx) hvs)
  | set xs info ih =>
    cases h with
    | set hvs => exact congrArg ("#\x7b" ++ · ++ "\x7d") (renderItems_eq (fun x hx _ => ih x hx) hvs)
  | map ps info ih =>
    cases v with
    | map id es =>
      have hes := renderPairs_eq (fun p hp => ⟨(ih p hp).1, (ih p hp).2⟩) (mirrors_map.mp h)
      exact congrArg ("\x7b" ++ · ++ "\x7d") hes
    | _ => cases h

/-! ## Back to forms -/

theorem toForms?_of_mirrors (h : ∀ x ∈ xs, ∀ {v}, Mirrors x v → ∃ g, toForm? v = .ok g ∧ g.bare = x.bare)
    (hvs : xs.Forall₂ Mirrors vs) : ∃ gs, toForms? vs = .ok gs ∧ gs.map Form.bare = xs.map Form.bare := by
  induction hvs with
  | nil => exact ⟨[], rfl, rfl⟩
  | cons hv _ ih =>
    obtain ⟨hx, hxs⟩ := List.forall_mem_cons.mp h
    obtain ⟨g, hg, hbare⟩ := hx hv
    obtain ⟨gs, hgs, hbares⟩ := ih hxs
    refine ⟨g :: gs, ?_, congrArg₂ List.cons hbare hbares⟩
    rw [toForms?, hg, hgs]
    rfl

theorem toPairs?_of_mirrors (h : ∀ p ∈ ps, (∀ {v}, Mirrors p.1 v → ∃ g, toForm? v = .ok g ∧ g.bare = p.1.bare) ∧
    ∀ {v}, Mirrors p.2 v → ∃ g, toForm? v = .ok g ∧ g.bare = p.2.bare) (hes : ps.Forall₂ MirrorsEntry es) :
    ∃ qs, toPairs? es = .ok qs ∧ qs.map (Prod.map Form.bare Form.bare) = ps.map (Prod.map Form.bare Form.bare) := by
  induction hes with
  | nil => exact ⟨[], rfl, rfl⟩
  | cons he _ ih =>
    obtain ⟨⟨hk, hv⟩, hps⟩ := List.forall_mem_cons.mp h
    obtain ⟨k, hk, hkbare⟩ := hk he.1
    obtain ⟨v, hv, hvbare⟩ := hv he.2
    obtain ⟨qs, hqs, hbares⟩ := ih hps
    refine ⟨(k, v) :: qs, ?_, congrArg₂ List.cons (congrArg₂ Prod.mk hkbare hvbare) hbares⟩
    rw [toPairs?, hk, hv, hqs]
    rfl

/-- **The form comes back**, but for metadata. -/
theorem Mirrors.toForm? (h : Mirrors f v) : ∃ g, v.toForm? = .ok g ∧ g.bare = f.bare := by
  induction f using Form.induct generalizing v with
  | atom f hf =>
    cases h with
    | nil | bool | long | double | char | str | keyword | symbol => exact ⟨_, rfl, rfl⟩
    | list | vector | set | map => cases hf
  | list xs info ih | vector xs info ih | set xs info ih =>
    cases h
    obtain ⟨gs, hgs, hbares⟩ := toForms?_of_mirrors (fun x hx _ => ih x hx) ‹_›
    refine ⟨_, by rw [Value.toForm?, hgs]; rfl, ?_⟩
    simp only [Form.bare_list, Form.bare_vector, Form.bare_set, hbares]
  | map ps info ih =>
    cases v with
    | map id es =>
      obtain ⟨qs, hqs, hbares⟩ := toPairs?_of_mirrors (fun p hp => ⟨(ih p hp).1, (ih p hp).2⟩) (mirrors_map.mp h)
      refine ⟨_, by rw [Value.toForm?, hqs]; rfl, ?_⟩
      simp only [Form.bare_map, hbares]
    | _ => cases h

/-! ## Members put in one after the other -/

theorem Members.ofList_eq (h : vs.Pairwise fun v w => equiv w v = false) : Members.ofList vs = vs := by
  suffices ∀ before : List Value, (before ++ vs).Pairwise (fun v w => equiv w v = false) →
      vs.foldl Members.insert before = before ++ vs from this [] h
  intro before hall
  clear h
  induction vs generalizing before with
  | nil => rw [List.foldl_nil, List.append_nil]
  | cons v vs ih =>
    have hnew : Members.contains before v = false := by
      refine List.any_eq_false.mpr fun w hw => ?_
      exact ne_true_of_eq_false ((List.pairwise_append.mp hall).2.2 w hw v List.mem_cons_self)
    have hsnoc : before ++ v :: vs = before ++ [v] ++ vs := List.append_cons before v vs
    rw [hsnoc] at hall ⊢
    rw [List.foldl_cons, Members.insert, hnew]
    exact ih (before ++ [v]) hall

theorem Entries.insert_new {k v : Value} (h : ∀ e ∈ es, equiv k e.1 = false) :
    Entries.insert es k v = es ++ [(k, v)] := by
  induction es with
  | nil => rfl
  | cons e es ih =>
    obtain ⟨he, hes⟩ := List.forall_mem_cons.mp h
    rw [Entries.insert, he, ih hes]
    rfl

theorem Entries.ofList_eq (h : es.Pairwise fun e e' => equiv e'.1 e.1 = false) : Entries.ofList es = es := by
  suffices ∀ before : List (Value × Value), (before ++ es).Pairwise (fun e e' => equiv e'.1 e.1 = false) →
      es.foldl (fun m e => Entries.insert m e.1 e.2) before = before ++ es from this [] h
  intro before hall
  clear h
  induction es generalizing before with
  | nil => rw [List.foldl_nil, List.append_nil]
  | cons e es ih =>
    have hnew : ∀ e' ∈ before, equiv e.1 e'.1 = false := fun e' he' =>
      (List.pairwise_append.mp hall).2.2 e' he' e List.mem_cons_self
    have hsnoc : before ++ e :: es = before ++ [e] ++ es := List.append_cons before e es
    rw [hsnoc] at hall ⊢
    rw [List.foldl_cons, Entries.insert_new hnew]
    exact ih (before ++ [e]) hall

/-! ## The value of a form -/

/-- The value is the form as data. -/
def Reads (f : Form) (v : Value) : Prop := ∃ n, ((ofForm f).run n).1 = v

theorem reads_ofForms : ∀ (fs : List Form) (n : Nat), List.Forall₂ Reads fs ((ofForms fs).run n).1
  | [], _ => .nil
  | _ :: fs, n => .cons ⟨n, rfl⟩ (reads_ofForms fs _)

theorem reads_ofPairs : ∀ (ps : List (Form × Form)) (n : Nat),
    List.Forall₂ (fun p e => Reads p.1 e.1 ∧ Reads p.2 e.2) ps ((ofPairs ps).run n).1
  | [], _ => .nil
  | _ :: ps, n => .cons ⟨⟨n, rfl⟩, _, rfl⟩ (reads_ofPairs ps _)

theorem Reads.list (h : Reads (.list xs info) v) : ∃ id vs, v = .list id vs ∧ List.Forall₂ Reads xs vs := by
  obtain ⟨n, rfl⟩ := h
  exact ⟨_, _, rfl, reads_ofForms xs n⟩

theorem Reads.vector (h : Reads (.vector xs info) v) : ∃ id vs, v = .vector id vs ∧ List.Forall₂ Reads xs vs := by
  obtain ⟨n, rfl⟩ := h
  exact ⟨_, _, rfl, reads_ofForms xs n⟩

theorem Reads.set (h : Reads (.set xs info) v) :
    ∃ id vs, v = .set id (Members.ofList vs) ∧ List.Forall₂ Reads xs vs := by
  obtain ⟨n, rfl⟩ := h
  exact ⟨_, _, rfl, reads_ofForms xs n⟩

theorem Reads.map (h : Reads (.map ps info) v) :
    ∃ id es, v = .map id (Entries.ofList es) ∧ List.Forall₂ (fun p e => Reads p.1 e.1 ∧ Reads p.2 e.2) ps es := by
  obtain ⟨n, rfl⟩ := h
  exact ⟨_, _, rfl, reads_ofPairs ps n⟩

theorem pairwise_of_forall₂ {α β : Type} {r : α → β → Prop} {p : α → α → Prop} {q : β → β → Prop} {as : List α}
    {bs : List β} (h : ∀ {a a' b b'}, r a b → r a' b' → p a a' → q b b') (hr : as.Forall₂ r bs) (hp : as.Pairwise p) :
    bs.Pairwise q := by
  rw [List.forall₂_iff_get] at hr
  rw [List.pairwise_iff_getElem] at hp ⊢
  obtain ⟨hlen, hr⟩ := hr
  intro i j hi hj hij
  exact h (hr i (by omega) hi) (hr j (by omega) hj) (hp i j (by omega) (by omega) hij)

/-- **A regular form is mirrored by the value that it denotes.** -/
theorem Reads.mirrors (hf : f.Regular) (h : Reads f v) : Mirrors f v := by
  induction hf generalizing v with
  | @atom f hf hd =>
    obtain ⟨n, rfl⟩ := h
    cases f with
    | nil => exact .nil
    | bool b => exact .bool b
    | long n => exact .long n
    | double d => exact .double d
    | char c => exact .char c
    | str s => exact .str s
    | keyword k => exact .keyword k
    | symbol s info => exact .symbol s info info
    | list | vector | map | set => cases hf
  | list hxs info ih =>
    obtain ⟨id, vs, rfl, hvs⟩ := h.list
    exact .list (forall₂_imp_of_mem (fun x hx _ => ih x hx) hvs) info id
  | vector hxs info ih =>
    obtain ⟨id, vs, rfl, hvs⟩ := h.vector
    exact .vector (forall₂_imp_of_mem (fun x hx _ => ih x hx) hvs) info id
  | set hxs hd info ih =>
    obtain ⟨id, vs, rfl, hvs⟩ := h.set
    have hmirrors := forall₂_imp_of_mem (fun x hx v => ih x hx (v := v)) hvs
    have hlater := hd.imp_of_mem fun {x y} _ hy hne => (hxs y hy).beq_false_symm hne
    rw [Members.ofList_eq (pairwise_of_forall₂ (fun hv hw hne => (hw.equiv_eq hv).trans hne) hmirrors hlater)]
    exact .set hmirrors info id
  | map hk hv hd info ihk ihv =>
    obtain ⟨id, es, rfl, hes⟩ := h.map
    have hmirrors : List.Forall₂ MirrorsEntry _ es :=
      forall₂_imp_of_mem (fun p hp e he => ⟨ihk p hp he.1, ihv p hp he.2⟩) hes
    have hlater := hd.imp_of_mem fun {p q} _ hq hne => (hk q hq).beq_false_symm hne
    rw [Entries.ofList_eq (pairwise_of_forall₂ (fun he hd hne => (hd.1.equiv_eq he.1).trans hne) hmirrors hlater)]
    exact mirrors_map.mpr hmirrors

/-- **Forms and values correspond.**  Two regular forms are equal if and only if their values are.  A value has the code
of its form and is written like it, and it turns into an equal form whose collections are of the same kinds and in the
same order. -/
theorem ofForm_corresponds (hf : f.Regular) (hg : g.Regular) (m n : Nat) (builders : Array String) :
    (equiv ((ofForm f).run m).1 ((ofForm g).run n).1 = true ↔ (f == g) = true) ∧
    ((ofForm f).run m).1.hash = f.hash ∧ ((ofForm f).run m).1.render builders = f.render ∧
    ∃ h, ((ofForm f).run m).1.toForm? = .ok h ∧ h.bare = f.bare ∧ (h == f) = true := by
  have hv : Mirrors f ((ofForm f).run m).1 := Reads.mirrors hf ⟨m, rfl⟩
  have hw : Mirrors g ((ofForm g).run n).1 := Reads.mirrors hg ⟨n, rfl⟩
  have heq : equiv ((ofForm f).run m).1 ((ofForm g).run n).1 = (f == g) := hv.equiv_eq hw
  obtain ⟨h, hform, hbare⟩ := hv.toForm?
  exact ⟨by rw [heq], hv.hash_eq, hv.render_eq, h, hform, hbare, Form.beq_left_congr hbare f ▸ hf.beq_self⟩

/-- Two sets with their members in different orders, the one with a vector for a list. -/
theorem ofForm_corresponds_sets : ∃ f g, Form.readAll "#\x7b1 [a 2.5]\x7d #\x7b(a 2.5) 1\x7d" = .ok [f, g] ∧
    f.Regular ∧ g.Regular ∧ equiv ((ofForm f).run 0).1 ((ofForm g).run 9).1 = true ∧
    ((ofForm f).run 0).1.render #[] = "#\x7b1 [a 2.5]\x7d" ∧
    ∃ h, ((ofForm f).run 0).1.toForm? = .ok h ∧ h.bare = f.bare ∧ (h == f) = true := by
  have hread : (Form.readAll "#\x7b1 [a 2.5]\x7d #\x7b(a 2.5) 1\x7d").toOption.any (fun fs =>
      fs.map Form.render == ["#\x7b1 [a 2.5]\x7d", "#\x7b(a 2.5) 1\x7d"] &&
        (fs.zip fs.tail).all fun p => p.1 == p.2) = true := by
    decide +kernel
  cases hall : Form.readAll "#\x7b1 [a 2.5]\x7d #\x7b(a 2.5) 1\x7d" with
  | error e =>
    rw [hall] at hread
    cases hread
  | ok fs =>
    rw [hall] at hread
    have hregular := Form.regular_of_readAll hall
    obtain ⟨htexts, heq⟩ := Bool.and_eq_true_iff.mp hread
    obtain ⟨f, gs, rfl, htext, hrest⟩ := List.map_eq_cons_iff.mp (eq_of_beq htexts)
    obtain ⟨g, hs, rfl, -, hnone⟩ := List.map_eq_cons_iff.mp hrest
    obtain rfl := List.map_eq_nil_iff.mp hnone
    obtain ⟨hf, hg⟩ : f.Regular ∧ g.Regular := by simpa using hregular
    have heq : (f == g) = true := by simpa using heq
    obtain ⟨hequiv, -, hrender, h, hform, hbare, hsame⟩ := ofForm_corresponds hf hg 0 9 #[]
    exact ⟨f, g, rfl, hf, hg, hequiv.mpr heq, hrender.trans htext, h, hform, hbare, hsame⟩

/-! ## Looking up by codes -/

theorem Entries.find?_among_code {k : Value} (h : ∀ e ∈ es, equiv k e.1 = true → e.1.hash = k.hash) :
    Entries.find? (es.filter fun e => e.1.hash == k.hash) k = Entries.find? es k := by
  induction es with
  | nil => rfl
  | cons e es ih =>
    obtain ⟨he, hes⟩ := List.forall_mem_cons.mp h
    by_cases hcode : e.1.hash = k.hash
    · rw [List.filter_cons_of_pos (by simpa using hcode), Entries.find?, Entries.find?, ih hes]
    · have hne : equiv k e.1 = false := eq_false_of_ne_true fun heq => hcode (he heq)
      rw [List.filter_cons_of_neg (by simpa using hcode), Entries.find?, hne, ih hes]
      rfl

/-- **A key of a regular form may be looked for among the keys with its code.** -/
theorem find?_among_code {k : Value} (hf : f.Regular) (hk : Mirrors f k) (hes : ps.Forall₂ MirrorsEntry es) :
    Entries.find? (es.filter fun e => e.1.hash == k.hash) k = Entries.find? es k := by
  refine Entries.find?_among_code fun e he heq => ?_
  obtain ⟨i, rfl⟩ := List.mem_iff_get.mp he
  obtain ⟨hlen, hget⟩ := List.forall₂_iff_get.mp hes
  have hp := hget i (by omega) i.isLt
  rw [hp.1.hash_eq, hk.hash_eq]
  exact (hf.hash_eq ((hk.equiv_eq hp.1).symm.trans heq)).symm

end LispMachine.Value
