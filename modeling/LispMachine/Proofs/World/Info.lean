import LispMachine.Analyze.Special
import LispMachine.Proofs.Value.Data
import LispMachine.Proofs.World.Vars
/-!
# Metadata as it is written

The metadata of a var comes from entries that are written on its name.  If no key is written twice, a flag of the metadata is
the flag of the entries (`Var.marked_of_mirrors`), also when the text of a definition is added to them
(`Analyze.definitionInfo_eq`).
-/
namespace LispMachine

namespace Value

theorem Mirrors.isTruthy_eq {f : Form} {v : Value} (h : Mirrors f v) : v.isTruthy = f.isTruthy := by
  cases h with
  | bool b => cases b <;> rfl
  | _ => rfl

end Value

theorem Form.beq_keyword {f : Form} {k : Keyword} : (f == .keyword k) = true ↔ f = .keyword k := by
  show Form.beq _ _ = true ↔ _
  cases f <;> simp [Form.beq]

namespace Var

/-- Whether an entry stands under the unqualified keyword of that name. -/
def named (key : String) (e : Form × Form) : Bool :=
  match e.1 with
  | .keyword k => k.symbol.isPlain key
  | _ => false

theorem named_eq_true {key : String} {e : Form × Form} (h : named key e = true) : e.1 = .keyword (Keyword.plain key) := by
  obtain ⟨f, x⟩ := e
  cases f with
  | keyword k =>
    obtain ⟨⟨ns, name⟩⟩ := k
    obtain ⟨hns, hname⟩ := Bool.and_eq_true_iff.1 h
    obtain rfl := Option.isNone_iff_eq_none.1 hns
    obtain rfl := beq_iff_eq.1 hname
    rfl
  | _ => cases h

theorem flag_eq (ps : List (Form × Form)) (key : String) :
    (Meta.flag { entries := ps } key) = ((ps.find? (named key)).map (·.2.isTruthy)).getD false :=
  congrArg (Option.getD · false) (Option.map_map ..)

theorem lookup_insertInfo (key : String) (value : Value) (info : List (String × Value)) (other : String) :
    (insertInfo key value info).lookup other = if other = key then some value else info.lookup other := by
  induction info with
  | nil =>
    rw [insertInfo, List.lookup_cons]
    by_cases h : other = key
    · rw [if_pos h, beq_iff_eq.2 h]
    · rw [if_neg h, beq_false_of_ne h]
  | cons e es ih =>
    rw [insertInfo, List.lookup_cons]
    by_cases he : e.1 = key
    · rw [if_pos (beq_iff_eq.2 he), List.lookup_cons, he]
      by_cases h : other = key
      · rw [if_pos h, beq_iff_eq.2 h]
      · rw [if_neg h, beq_false_of_ne h]
    · rw [if_neg (by simpa using he), List.lookup_cons, ih]
      by_cases h : other = key
      · rw [if_pos h, if_pos h, h, beq_false_of_ne (Ne.symm he)]
      · rw [if_neg h, if_neg h]

/-- Puts an entry of a map into metadata, if its key is an unqualified keyword. -/
def addInfo (info : List (String × Value)) (e : Value × Value) : List (String × Value) :=
  match e.1 with
  | .keyword k => if k.ns.isNone then insertInfo k.name e.2 info else info
  | _ => info

theorem infoOf_map (id : Nat) (es : Value.Entries) : infoOf (.map id es) = es.foldl addInfo [] := rfl

theorem lookup_addInfo {p : Form × Form} {e : Value × Value} (h : Value.MirrorsEntry p e) (info : List (String × Value)) (key : String) :
    ((addInfo info e).lookup key).map Value.isTruthy =
      if named key p then some p.2.isTruthy else (info.lookup key).map Value.isTruthy := by
  obtain ⟨f, x⟩ := p
  obtain ⟨v, y⟩ := e
  obtain ⟨hkey, hvalue⟩ := h
  have htruthy : y.isTruthy = x.isTruthy := hvalue.isTruthy_eq
  cases hkey with
  | keyword k =>
    obtain ⟨⟨ns, name⟩⟩ := k
    cases ns with
    | some ns => rfl
    | none =>
      show ((insertInfo name y info).lookup key).map Value.isTruthy = if name == key then _ else _
      rw [lookup_insertInfo]
      by_cases heq : key = name
      · rw [if_pos heq, if_pos (beq_iff_eq.2 heq.symm), Option.map_some, htruthy]
      · rw [if_neg heq, if_neg (by simpa using Ne.symm heq)]
  | _ => rfl

/-- A flag of metadata that mirrors a form is that of the form. -/
theorem marked_of_mirrors {ps : List (Form × Form)} {m : Value} (h : Value.Mirrors (.ofPairs ps) m)
    (hd : ps.Pairwise fun p q => (p.1 == q.1) = false) (key : String) : marked key m = (Meta.flag { entries := ps } key) := by
  obtain ⟨id, es, rfl, hes⟩ : ∃ id es, m = .map id es ∧ ps.Forall₂ Value.MirrorsEntry es := by
    cases h with
    | map hk hv info id => exact ⟨id, _, rfl, Value.mirrors_map.1 (.map hk hv none id)⟩
  have hlookup : ∀ info, ((es.foldl addInfo info).lookup key).map Value.isTruthy =
      ((ps.find? (named key)).map (·.2.isTruthy)).or ((info.lookup key).map Value.isTruthy) := by
    clear h
    induction hes with
    | nil => exact fun info => rfl
    | @cons p e ps es hp hrest ih =>
      obtain ⟨hlater, hd⟩ := List.pairwise_cons.1 hd
      intro info
      rw [List.foldl_cons, ih hd, lookup_addInfo hp]
      cases hnamed : named key p with
      | false => rw [List.find?_cons_of_neg (ne_true_of_eq_false hnamed), if_neg Bool.false_ne_true]
      | true =>
        -- no later entry stands under this name
        have hnone : ps.find? (named key) = none := List.find?_eq_none.2 fun q hq hq' => by
          have hne := hlater q hq
          rw [named_eq_true hq'] at hne
          exact ne_true_of_eq_false hne (Form.beq_keyword.2 (named_eq_true hnamed))
        rw [List.find?_cons_of_pos hnamed, hnone, if_pos rfl]
        rfl
  rw [flag_eq, marked, infoOf_map, hlookup, List.lookup_nil, Option.map_none, Option.or_none]

end Var

/-- What is put into metadata is found there. -/
theorem Meta.flag_insert (info : Form.Info) (key : String) (value : Form) :
    (info.insert (.keyword (Keyword.plain key)) value).flag key = value.isTruthy := by
  have hself : Var.named key (.keyword (Keyword.plain key), value) = true := by
    show (key == key) = true
    exact beq_self_eq_true key
  have hfind : ∀ entries, (Meta.insertEntry (.keyword (Keyword.plain key)) value entries).find? (Var.named key) =
      some (.keyword (Keyword.plain key), value) := by
    intro entries
    induction entries with
    | nil => rw [Meta.insertEntry, List.find?_cons_of_pos hself]
    | cons e es ih =>
      rw [Meta.insertEntry]
      split
      · rename_i hkey
        rw [Form.beq_keyword.1 hkey, List.find?_cons_of_pos hself]
      · rename_i hkey
        have hnamed : ¬ Var.named key e = true := fun h => hkey (Form.beq_keyword.2 (Var.named_eq_true h))
        rw [List.find?_cons_of_neg hnamed, ih]
  exact (Var.flag_eq _ key).trans (congrArg (fun o => (Option.map (·.2.isTruthy) o).getD false) (hfind info.entries))

/-- The metadata without its text has no entry twice either, and the same flags. -/
theorem Analyze.definitionInfo_eq {entries : List (Form × Form)} (hreg : (Form.ofPairs entries).Regular) (doc : Option String) :
    ∃ ps, Analyze.definitionInfo entries doc = .ofPairs ps ∧ (Form.ofPairs ps).Regular ∧
      ∀ key, key ≠ "doc" → (Meta.flag { entries := ps } key) = (Meta.flag { entries } key) := by
  cases doc with
  | none => exact ⟨entries, rfl, hreg, fun _ _ => rfl⟩
  | some text =>
    refine ⟨_, rfl, ?_, fun key hkey => ?_⟩
    · cases hreg with
      | atom hf _ => cases hf
      | map hk hv hd info =>
        have hdoc : (Form.kw "doc").Regular := .atom rfl (by simp [Form.kw])
        have htext : (Form.str text).Regular := .atom rfl (by simp)
        refine .map (fun e he => ?_) (fun e he => ?_) ?_ none
        · rcases List.mem_append.1 he with he | he
          · exact hk e (List.mem_filter.1 he).1
          · exact List.mem_singleton.1 he ▸ hdoc
        · rcases List.mem_append.1 he with he | he
          · exact hv e (List.mem_filter.1 he).1
          · exact List.mem_singleton.1 he ▸ htext
        · refine List.pairwise_append.2 ⟨hd.filter _, List.pairwise_singleton _ _, fun e he q hq => ?_⟩
          rw [List.mem_singleton.1 hq]
          simpa using (List.mem_filter.1 he).2
    · have hkw : Form.kw "doc" = .keyword (Keyword.plain "doc") := congrArg Form.keyword (by decide +kernel)
      have hnamed : ∀ e : Form × Form, decide ((!(e.1 == Form.kw "doc")) = true ∧ Var.named key e = true) = Var.named key e := fun e => by
        cases hnamed : Var.named key e with
        | false => exact decide_eq_false fun h => Bool.false_ne_true h.2
        | true =>
          have hne : (e.1 == Form.kw "doc") = false := Bool.eq_false_iff.2 fun h => by
            rw [hkw, Form.beq_keyword, Var.named_eq_true hnamed] at h
            exact hkey (congrArg Keyword.name (Form.keyword.inj h))
          exact decide_eq_true ⟨congrArg not hne, rfl⟩
      have hdoc : Var.named key (Form.kw "doc", .str text) = false := by
        refine Bool.eq_false_iff.2 fun h => hkey ?_
        have hkey := (Var.named_eq_true h).symm.trans hkw
        exact congrArg Keyword.name (Form.keyword.inj hkey)
      rw [Var.flag_eq, Var.flag_eq, List.find?_append, List.find?_filter, List.find?_singleton, hdoc, if_neg Bool.false_ne_true,
        Option.or_none]
      simp only [hnamed]

end LispMachine
