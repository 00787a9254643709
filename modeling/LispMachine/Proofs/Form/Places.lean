import LispMachine.Proofs.Form.Bare
import LispMachine.Proofs.Form.Grammar
/-!
# Places do not matter

The same tokens at other places spell the same forms up to metadata (`Row.relocate`).
-/
namespace LispMachine.Form

variable {t u : Located} {ts : List Located} {f g : Form} {fs xs ys : List Form} {p q : Pos}

@[simp] theorem bare_placed (f : Form) (p : Pos) : (placed f p).bare = f.bare := bare_withInfo f _

theorem atom?_relocate (htu : u.token = t.token) (h : atom? t = some f) : ∃ g, atom? u = some g ∧ g.bare = f.bare := by
  obtain ⟨token, p⟩ := t
  obtain ⟨token', q⟩ := u
  obtain rfl := htu
  cases token' <;> simp only [atom?, Option.some.injEq, reduceCtorEq] at h <;> subst h <;>
    exact ⟨_, rfl, by simp⟩

theorem repeated?_eq_none_congr (h : ys.map bare = xs.map bare) : repeated? [] ys = none ↔ repeated? [] xs = none := by
  have hx := repeated?_map_bare [] xs
  have hy := repeated?_map_bare [] ys
  rw [h, hx] at hy
  rw [← Option.map_eq_none_iff (f := bare), ← hy, Option.map_eq_none_iff]

theorem map_fst_pairUp_congr (h : ys.map bare = xs.map bare) :
    ((pairUp ys).map (·.1)).map bare = ((pairUp xs).map (·.1)).map bare := by
  have hx := pairUp_map_bare xs
  rw [← h, pairUp_map_bare] at hx
  have := congrArg (List.map Prod.fst) hx
  simpa [List.map_map, Function.comp_def] using this

/-- What makes a collection out of its items looks at no metadata. -/
theorem finish_relocate {token : Token} {k : Enclosure} (hk : opening? token = some k)
    (hxy : ys.map bare = xs.map bare) (h : k.finish xs p = .ok f) : ∃ g, k.finish ys q = .ok g ∧ g.bare = f.bare := by
  have hlen : ys.length = xs.length := by simpa using congrArg List.length hxy
  cases token <;> simp only [opening?, Option.some.injEq, reduceCtorEq] at hk <;> subst hk <;> dsimp only at h ⊢
  case openParen | openBracket =>
    obtain rfl := Except.ok.inj h
    exact ⟨_, rfl, by simp [hxy]⟩
  case openSet =>
    unfold ofSetItems at h ⊢
    split at h
    · cases h
    · rename_i hx
      obtain rfl := Except.ok.inj h
      rw [(repeated?_eq_none_congr hxy).mpr hx]
      exact ⟨_, rfl, by simp [hxy]⟩
  case openBrace =>
    unfold ofMapItems at h ⊢
    rw [hlen]
    split at h
    · cases h
    · rename_i heven
      rw [if_neg heven]
      dsimp only at h ⊢
      split at h
      · cases h
      · rename_i hx
        obtain rfl := Except.ok.inj h
        rw [(repeated?_eq_none_congr (map_fst_pairUp_congr hxy)).mpr hx]
        refine ⟨_, rfl, ?_⟩
        rw [bare_placed, bare_placed, bare_map, bare_map, ← pairUp_map_bare, ← pairUp_map_bare, hxy]

theorem metadataOf?_relocate {extra : Info} (hfg : g.bare = f.bare) (h : metadataOf? f = some extra) :
    ∃ extra', metadataOf? g = some extra' := by
  cases f <;> simp only [metadataOf?, reduceCtorEq] at h <;> cases g <;>
    simp only [bare, reduceCtorEq] at hfg <;> exact ⟨_, rfl⟩

theorem annotate_relocate {extra extra' : Info} {a : Form} (hfg : g.bare = f.bare)
    (h : annotate extra f p = .ok a) : ∃ b, annotate extra' g q = .ok b ∧ b.bare = a.bare := by
  unfold annotate at h ⊢
  rw [← isSymbol_bare g, ← isCollection_bare g, hfg, isSymbol_bare, isCollection_bare]
  split at h
  · rename_i hc
    obtain rfl := Except.ok.inj h
    rw [if_pos hc]
    exact ⟨_, rfl, by simp [hfg]⟩
  · cases h

theorem tokens_eq_cons {us : List Located} (h : us.map (·.token) = (t :: ts).map (·.token)) :
    ∃ u vs, us = u :: vs ∧ u.token = t.token ∧ vs.map (·.token) = ts.map (·.token) := by
  obtain ⟨u, vs, rfl, hu, hvs⟩ := List.map_eq_cons_iff.mp h
  exact ⟨u, vs, rfl, hu, hvs⟩

/-- **The same tokens at other places** spell the same forms up to metadata. -/
theorem Row.relocate (h : Row ts fs) : ∀ {us : List Located}, us.map (·.token) = ts.map (·.token) →
    ∃ gs, Row us gs ∧ gs.map bare = fs.map bare := by
  induction h with
  | done =>
    intro us hus
    obtain rfl := List.map_eq_nil_iff.mp hus
    exact ⟨[], .done, rfl⟩
  | atom hf row ih =>
    intro us hus
    obtain ⟨u, us, rfl, hu, hus⟩ := tokens_eq_cons hus
    obtain ⟨gs, hgs, hbare⟩ := ih hus
    obtain ⟨g, hg, hfg⟩ := atom?_relocate hu hf
    exact ⟨g :: gs, .atom hg hgs, by simp [hfg, hbare]⟩
  | @bracket t c ts vs k xs fs f hk hc items hf row ihItems ih =>
    intro us hus
    obtain ⟨u, us, rfl, hu, hus⟩ := tokens_eq_cons hus
    rw [List.map_append] at hus
    obtain ⟨us, ws, rfl, hts, hws⟩ := List.map_eq_append_iff.mp hus
    obtain ⟨d, ws, rfl, hd, hws⟩ := tokens_eq_cons hws
    obtain ⟨ys, hys, hxy⟩ := ihItems hts
    obtain ⟨gs, hgs, hbare⟩ := ih hws
    obtain ⟨g, hg, hfg⟩ := finish_relocate hk hxy hf
    exact ⟨g :: gs, .bracket (hu ▸ hk) (hd ▸ hc) hys hg hgs, by simp [hfg, hbare]⟩
  | @quoted t vs name f fs hn row ih =>
    intro us hus
    obtain ⟨u, us, rfl, hu, hus⟩ := tokens_eq_cons hus
    obtain ⟨gs, hgs, hbare⟩ := ih hus
    obtain ⟨g, gs, rfl, hg, hbare⟩ := List.map_eq_cons_iff.mp hbare
    exact ⟨_, .quoted (hu ▸ hn) hgs, by simp [hg, hbare]⟩
  | @annotated t vs data f a extra fs ht row hm ha ih =>
    intro us hus
    obtain ⟨u, us, rfl, hu, hus⟩ := tokens_eq_cons hus
    obtain ⟨gs, hgs, hbare⟩ := ih hus
    obtain ⟨data', gs, rfl, hdata, hbare⟩ := List.map_eq_cons_iff.mp hbare
    obtain ⟨g, gs, rfl, hg, hbare⟩ := List.map_eq_cons_iff.mp hbare
    obtain ⟨extra', hextra⟩ := metadataOf?_relocate hdata hm
    obtain ⟨b, hb, hab⟩ := annotate_relocate hg ha
    exact ⟨_, .annotated (hu.trans ht) hgs hextra hb, by simp [hab, hbare]⟩
  | dropped ht row ih =>
    intro us hus
    obtain ⟨u, us, rfl, hu, hus⟩ := tokens_eq_cons hus
    obtain ⟨gs, hgs, hbare⟩ := ih hus
    obtain ⟨g, gs, rfl, -, hbare⟩ := List.map_eq_cons_iff.mp hbare
    exact ⟨gs, .dropped (hu.trans ht) hgs, hbare⟩

end LispMachine.Form
