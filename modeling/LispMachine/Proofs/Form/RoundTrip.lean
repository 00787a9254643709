import LispMachine.Proofs.Form.Legible
/-!
# Forms are read back as they are written

The text of a legible form without infinite doubles is cut into the tokens of the form (`cut_render`), and these
tokens spell the form (`Legible.spelled`).  So the form is read back up to its metadata, with the same kinds of
collections at every depth (`readOne_render`).
-/
namespace LispMachine.Form

open Token

variable {f g : Form} {xs : List Form} {opening closing : Token}

/-! ## Written forms -/

mutual

/-- The tokens that a form is written with. -/
def tokens : Form → List Token
  | .nil => [.nil]
  | .bool b => [.bool b]
  | .long n => [.long n]
  | .double d => [.double d]
  | .char c => [.char c]
  | .str s => [.str s]
  | .keyword k => [.keyword k.symbol.render]
  | .symbol s _ => [.symbol s.render]
  | .list xs _ => .openParen :: tokensOfItems xs ++ [.closeParen]
  | .vector xs _ => .openBracket :: tokensOfItems xs ++ [.closeBracket]
  | .set xs _ => .openSet :: tokensOfItems xs ++ [.closeBrace]
  | .map ps _ => .openBrace :: tokensOfPairs ps ++ [.closeBrace]

def tokensOfItems : List Form → List Token
  | [] => []
  | x :: xs => tokens x ++ tokensOfItems xs

def tokensOfPairs : List (Form × Form) → List Token
  | [] => []
  | (k, v) :: ps => tokens k ++ (tokens v ++ tokensOfPairs ps)

end

/-- A text that is cut into these tokens, provided that it stands apart from what follows. -/
def Cut (text : List Char) (us : List Token) : Prop := ∀ rest ts o, Apart rest → Lexes rest ts o →
  Lexes (text ++ rest) (us ++ ts) o

section Cut

variable {a b text body : List Char} {us vs : List Token} {token : Token} {c : Char}

theorem Cut.of_writes (h : Writes text token) : Cut text [token] := fun _ _ _ hr tail => h.lexes hr tail

theorem Cut.nil : Cut [] [] := fun _ _ _ _ tail => tail

theorem Cut.separated (ha : Cut a us) (hb : Cut b vs) : Cut (a ++ ' ' :: b) (us ++ vs) := by
  intro rest ts o hr tail
  have hblank : Lexes (' ' :: (b ++ rest)) (vs ++ ts) o := (hb rest ts o hr tail).skip (by rw [Token.skipBlanks]; rfl)
  have := ha (' ' :: (b ++ rest)) (vs ++ ts) o (by simp [Apart]) hblank
  simpa using this

/-- Entries of a map are set apart by a comma, too. -/
theorem Cut.separated_comma (ha : Cut a us) (hb : Cut b vs) : Cut (a ++ ',' :: ' ' :: b) (us ++ vs) := by
  intro rest ts o hr tail
  have hblank : Lexes (',' :: ' ' :: (b ++ rest)) (vs ++ ts) o :=
    (hb rest ts o hr tail).skip (by rw [Token.skipBlanks, if_pos (by decide), Token.skipBlanks, if_pos (by decide)])
  have := ha (',' :: ' ' :: (b ++ rest)) (vs ++ ts) o (by simp [Apart]) hblank
  simpa using this

/-- Brackets need no separators. -/
theorem Cut.enclosed {op : List Char} (ho : Marks op opening) (hc : Marks [c] closing) (ha : Apart [c])
    (h : Cut body us) : Cut (op ++ (body ++ [c])) (opening :: (us ++ [closing])) := by
  intro rest ts o _ tail
  have hclose := h (c :: rest) (closing :: ts) o ha (hc.lexes tail)
  have := ho.lexes hclose
  simpa using this

end Cut

/-- A symbol is written by the text that it was read from. -/
theorem render_parse (text : String) : (Symbol.parse text).render = text := by
  rw [← String.toList_inj]
  unfold Symbol.parse Symbol.ofChars
  have hspan := List.takeWhile_append_dropWhile (p := (· != '/')) (l := text.toList)
  rw [List.span_eq_takeWhile_dropWhile]
  split
  · rename_i heq
    obtain ⟨htake, hdrop⟩ := Prod.mk.inj heq
    rw [htake, hdrop] at hspan
    rw [← hspan]
    simp [Symbol.render]
  · simp [Symbol.render]

/-- No double in the form is infinite. -/
def Bounded (f : Form) : Prop := ∀ d ∈ f.doubles, Double.isInfinite d = false

instance (f : Form) : Decidable f.Bounded := inferInstanceAs (Decidable (∀ d ∈ f.doubles, _))

theorem cut_renderItems : ∀ {xs : List Form}, (∀ x ∈ xs, Cut x.render.toList x.tokens) →
    Cut (renderItems xs).toList (tokensOfItems xs)
  | [], _ => .nil
  | [x], h => by
    rw [renderItems, tokensOfItems, tokensOfItems, List.append_nil]
    exact h x List.mem_cons_self
  | x :: y :: xs, h => by
    obtain ⟨hx, hxs⟩ := List.forall_mem_cons.mp h
    have := hx.separated (cut_renderItems hxs)
    rw [renderItems, tokensOfItems]
    · simpa using this
    · simp

theorem cut_renderPairs : ∀ {ps : List (Form × Form)},
    (∀ e ∈ ps, Cut e.1.render.toList e.1.tokens ∧ Cut e.2.render.toList e.2.tokens) →
    Cut (renderPairs ps).toList (tokensOfPairs ps)
  | [], _ => .nil
  | [(k, v)], h => by
    obtain ⟨hk, hv⟩ := h _ List.mem_cons_self
    have := hk.separated hv
    rw [renderPairs, tokensOfPairs, tokensOfPairs, List.append_nil]
    simpa using this
  | (k, v) :: e :: ps, h => by
    obtain ⟨⟨hk, hv⟩, hps⟩ := List.forall_mem_cons.mp h
    have := hk.separated (hv.separated_comma (cut_renderPairs hps))
    rw [renderPairs, tokensOfPairs]
    · simpa using this
    · simp

/-- **A legible form is written as its tokens.** -/
theorem cut_render (h : Legible f) : Bounded f → Cut f.render.toList f.tokens := by
  unfold Bounded
  induction h with
  | nil =>
    intro _
    exact .of_writes Token.writes_nil
  | bool b =>
    intro _
    cases b
    · exact .of_writes Token.writes_false
    · exact .of_writes Token.writes_true
  | long n =>
    intro _
    exact .of_writes (Token.writes_long n)
  | @double d h =>
    intro hfin
    obtain ⟨p, hp⟩ := Double.exists_finite h (hfin d (by simp [doubles]))
    exact .of_writes (Token.writes_double hp)
  | char c =>
    intro _
    exact .of_writes (Token.writes_charLiteral c)
  | str s =>
    intro _
    exact .of_writes (Token.writes_quoted s)
  | @keyword text h =>
    intro _
    have : Writes (Keyword.parse text).render.toList (.keyword (Keyword.parse text).symbol.render) := by
      simp only [Keyword.render, Keyword.parse, render_parse, String.toList_append]
      exact h
    exact .of_writes this
  | @symbol text h info =>
    intro _
    have : Writes (Symbol.parse text).render.toList (.symbol (Symbol.parse text).render) := by
      rw [render_parse]
      exact h
    exact .of_writes this
  | @list xs h info ih =>
    intro hfin
    simp only [doubles, mem_doublesOf] at hfin
    have := (cut_renderItems fun x hx => ih x hx fun d hd => hfin d ⟨x, hx, hd⟩).enclosed marks_openParen
      marks_closeParen (by simp [Apart])
    simpa [render, tokens] using this
  | @vector xs h info ih =>
    intro hfin
    simp only [doubles, mem_doublesOf] at hfin
    have := (cut_renderItems fun x hx => ih x hx fun d hd => hfin d ⟨x, hx, hd⟩).enclosed marks_openBracket
      marks_closeBracket (by simp [Apart])
    simpa [render, tokens] using this
  | @set xs h hd info ih =>
    intro hfin
    simp only [doubles, mem_doublesOf] at hfin
    have := (cut_renderItems fun x hx => ih x hx fun d hd => hfin d ⟨x, hx, hd⟩).enclosed marks_openSet
      marks_closeBrace (by simp [Apart])
    simpa [render, tokens] using this
  | @map ps hk hv hd info ihk ihv =>
    intro hfin
    simp only [doubles, mem_doublesOfPairs] at hfin
    have hps : ∀ e ∈ ps, Cut e.1.render.toList e.1.tokens ∧ Cut e.2.render.toList e.2.tokens := fun e he =>
      ⟨ihk e he fun d hd => hfin d ⟨e, he, .inl hd⟩, ihv e he fun d hd => hfin d ⟨e, he, .inr hd⟩⟩
    have := (cut_renderPairs hps).enclosed marks_openBrace marks_closeBrace (by simp [Apart])
    simpa [render, tokens] using this

/-! ## Written forms are spelled -/

theorem pairUp_flatMap {ps : List (Form × Form)} : pairUp (ps.flatMap fun e => [e.1, e.2]) = ps := by
  induction ps with
  | nil => rfl
  | cons e ps ih => simp [pairUp, ih]

theorem length_flatMap_pair (ps : List (Form × Form)) : (ps.flatMap fun e => [e.1, e.2]).length = 2 * ps.length := by
  induction ps with
  | nil => rfl
  | cons e ps ih =>
    rw [List.flatMap_cons, List.length_append, ih]
    simp
    omega

theorem tokensOfPairs_eq : ∀ ps : List (Form × Form), tokensOfPairs ps = tokensOfItems (ps.flatMap fun e => [e.1, e.2])
  | [] => rfl
  | (k, v) :: ps => by
    rw [tokensOfPairs, tokensOfPairs_eq ps]
    simp [tokensOfItems]

/-- Tokens that are written for a form, wherever they stand, spell it up to metadata. -/
def Spelled (f : Form) : Prop := ∀ ls : List Located, ls.map (·.token) = f.tokens → ∃ g, Spells ls g ∧ g.bare = f.bare

theorem row_of_spelled : ∀ {xs : List Form}, (∀ x ∈ xs, Spelled x) → ∀ {ls : List Located},
    ls.map (·.token) = tokensOfItems xs → ∃ ys, Row ls ys ∧ ys.map bare = xs.map bare
  | [], _, ls, hls => by
    obtain rfl := List.map_eq_nil_iff.mp hls
    exact ⟨[], .done, rfl⟩
  | x :: xs, h, ls, hls => by
    obtain ⟨hx, hxs⟩ := List.forall_mem_cons.mp h
    obtain ⟨ls, ms, rfl, hls, hms⟩ := List.map_eq_append_iff.mp hls
    obtain ⟨y, hy, hxy⟩ := hx ls hls
    obtain ⟨ys, hys, hbare⟩ := row_of_spelled hxs hms
    exact ⟨y :: ys, hy _ _ hys, by simp [hxy, hbare]⟩

theorem spelled_atom {token : Token} (hf : f.tokens = [token]) (h : ∀ p, ∃ g, atom? ⟨token, p⟩ = some g ∧ g.bare = f.bare) :
    Spelled f := by
  intro ls hls
  rw [hf] at hls
  obtain ⟨⟨u, p⟩, rfl, rfl⟩ := List.map_eq_singleton_iff.mp hls
  obtain ⟨g, hg, hbare⟩ := h p
  exact ⟨g, fun us fs hus => .atom hg hus, hbare⟩

theorem spelled_bracket (opening closing : Token) {k : Enclosure} (hk : opening? opening = some k) (hc : k.bracket.closes closing = true)
    (hf : f.tokens = opening :: (tokensOfItems xs ++ [closing])) (hxs : ∀ x ∈ xs, Spelled x)
    (hfin : k.finish xs .start = .ok g) (hg : g.bare = f.bare) : Spelled f := by
  intro ls hls
  rw [hf] at hls
  obtain ⟨⟨u, p⟩, ls, rfl, hu, hls⟩ := List.map_eq_cons_iff.mp hls
  obtain ⟨items, ms, rfl, hitems, hms⟩ := List.map_eq_append_iff.mp hls
  obtain ⟨⟨v, q⟩, rfl, rfl⟩ := List.map_eq_singleton_iff.mp hms
  obtain ⟨ys, hys, hbare⟩ := row_of_spelled hxs hitems
  obtain ⟨a, ha, hab⟩ := finish_relocate (q := p) hk hbare hfin
  subst hu
  refine ⟨a, fun us fs hus => ?_, hab.trans hg⟩
  have := Row.bracket hk hc hys ha hus
  simpa using this

/-- **The tokens of a legible form spell it.** -/
theorem Legible.spelled (h : Legible f) : Spelled f := by
  induction h with
  | nil => exact spelled_atom rfl fun p => ⟨_, rfl, rfl⟩
  | bool b => exact spelled_atom rfl fun p => ⟨_, rfl, rfl⟩
  | long n => exact spelled_atom rfl fun p => ⟨_, rfl, rfl⟩
  | double h => exact spelled_atom rfl fun p => ⟨_, rfl, rfl⟩
  | char c => exact spelled_atom rfl fun p => ⟨_, rfl, rfl⟩
  | str s => exact spelled_atom rfl fun p => ⟨_, rfl, rfl⟩
  | @keyword text h =>
    exact spelled_atom rfl fun p => ⟨_, rfl, by simp [Keyword.parse, render_parse]⟩
  | @symbol text h info =>
    exact spelled_atom rfl fun p => ⟨_, rfl, by simp [render_parse]⟩
  | list h info ih =>
    exact spelled_bracket .openParen .closeParen rfl rfl (by rw [tokens]; rfl) ih rfl (by simp)
  | vector h info ih =>
    exact spelled_bracket .openBracket .closeBracket rfl rfl (by rw [tokens]; rfl) ih rfl (by simp)
  | @set xs h hd info ih =>
    refine spelled_bracket (g := placed (.set xs none) .start) .openSet .closeBrace rfl rfl (by rw [tokens]; rfl) ih ?_
      (by simp)
    dsimp only
    rw [ofSetItems, hd]
  | @map ps hk hv hd info ihk ihv =>
    refine spelled_bracket (g := placed (.map ps none) .start) .openBrace .closeBrace rfl rfl
      (by rw [tokens, tokensOfPairs_eq]; rfl) ?_ ?_ (by simp)
    · intro x hx
      simp only [List.mem_flatMap, List.mem_cons, List.not_mem_nil, or_false] at hx
      obtain ⟨e, he, rfl | rfl⟩ := hx
      · exact ihk e he
      · exact ihv e he
    · dsimp only
      rw [ofMapItems, length_flatMap_pair, pairUp_flatMap, if_neg (by simp)]
      dsimp only
      rw [hd]

/-- **What is written means the form.** -/
theorem Legible.means (h : Legible f) (hfin : Bounded f) : Means f.render.toList [f] := by
  have hcut : Lexes f.render.toList f.tokens none := by
    have := cut_render h hfin [] [] none (by simp [Apart]) (.done (by rw [Token.skipBlanks]))
    simpa using this
  have htokens : (f.tokens.map fun t => (⟨t, .start⟩ : Located)).map (·.token) = f.tokens := by
    simp [Function.comp_def]
  obtain ⟨g, hg, hbare⟩ := h.spelled _ htokens
  exact ⟨_, [g], htokens ▸ hcut, by simpa using hg [] [] .done, by simp [hbare]⟩

/-! ## Reading again -/

/-- **A form is read back as it is written**: the same form up to metadata, with the same kinds of collections
at every depth, and so an equal one. -/
theorem readOne_render {s : String} (h : readOne s = .ok f) (hfin : Bounded f) :
    ∃ g, readOne f.render = .ok g ∧ g.bare = f.bare ∧ (g == f) = true := by
  have hf := legible_of_readOne h
  obtain ⟨g, hg, hbare⟩ := (hf.means hfin).readOne
  exact ⟨g, hg, hbare, beq_of_bare_eq hbare fun d hd => Float.beq_self_iff.mpr (hf.double_ne_nan d hd)⟩

/-- Metadata is not written, and a quote mark is written as the list that it stands for. -/
theorem readOne_render_nested : ∃ f g, readOne "^:hot [1.5 \x7b:a \\b\x7d, #\x7bx/y\x7d \x27z]" = .ok f ∧ f.Bounded ∧
    f.render = "[1.5 \x7b:a \\b\x7d #\x7bx/y\x7d (quote z)]" ∧ readOne f.render = .ok g ∧ g.bare = f.bare ∧
    (g == f) = true := by
  have hread : (readOne "^:hot [1.5 \x7b:a \\b\x7d, #\x7bx/y\x7d \x27z]").toOption.any (fun f =>
      decide (f.Bounded ∧ f.render = "[1.5 \x7b:a \\b\x7d #\x7bx/y\x7d (quote z)]")) = true := by
    decide +kernel
  cases hf : readOne "^:hot [1.5 \x7b:a \\b\x7d, #\x7bx/y\x7d \x27z]" with
  | error e =>
    rw [hf] at hread
    cases hread
  | ok f =>
    rw [hf] at hread
    obtain ⟨hfin, htext⟩ := of_decide_eq_true hread
    obtain ⟨g, hg, hbare, heq⟩ := readOne_render hf hfin
    exact ⟨f, g, rfl, hfin, htext, hg, hbare, heq⟩

end LispMachine.Form
