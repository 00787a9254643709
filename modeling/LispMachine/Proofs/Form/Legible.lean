import LispMachine.Proofs.Form.Texts
import LispMachine.Proofs.Token.Written
/-!
# Legible forms

A form is `Legible` if its names are written by their characters, none of its doubles is not a number, and its
sets and maps hold nothing twice.  Legible tokens spell legible forms (`Row.legible`), and so every form that is
read from a text is legible.
-/
namespace LispMachine.Form

/-- Forms that can be read: their atoms are tokens, and sets and maps hold nothing twice. -/
inductive Legible : Form → Prop
  | nil : Legible .nil
  | bool (b : Bool) : Legible (.bool b)
  | long (n : Int64) : Legible (.long n)
  | double {d : Float} (h : (Token.double d).Legible) : Legible (.double d)
  | char (c : Char) : Legible (.char c)
  | str (s : String) : Legible (.str s)
  | keyword {text : String} (h : (Token.keyword text).Legible) : Legible (.keyword (Keyword.parse text))
  | symbol {text : String} (h : (Token.symbol text).Legible) (info : Option Info) :
      Legible (.symbol (Symbol.parse text) info)
  | list {xs : List Form} (h : ∀ x ∈ xs, Legible x) (info : Option Info) : Legible (.list xs info)
  | vector {xs : List Form} (h : ∀ x ∈ xs, Legible x) (info : Option Info) : Legible (.vector xs info)
  | set {xs : List Form} (h : ∀ x ∈ xs, Legible x) (hd : repeated? [] xs = none) (info : Option Info) :
      Legible (.set xs info)
  | map {ps : List (Form × Form)} (hk : ∀ e ∈ ps, Legible e.1) (hv : ∀ e ∈ ps, Legible e.2)
      (hd : repeated? [] (ps.map (·.1)) = none) (info : Option Info) : Legible (.map ps info)

variable {t : Located} {ts : List Located} {f : Form} {fs xs : List Form} {p : Pos} {s : String}

theorem Legible.withInfo (h : Legible f) (info : Option Info) : Legible (f.withInfo info) := by
  cases h with
  | nil => exact .nil
  | bool b => exact .bool b
  | long n => exact .long n
  | double h => exact .double h
  | char c => exact .char c
  | str s => exact .str s
  | keyword h => exact .keyword h
  | symbol h => exact .symbol h info
  | list h => exact .list h info
  | vector h => exact .vector h info
  | set h hd => exact .set h hd info
  | map hk hv hd => exact .map hk hv hd info

theorem legible_atom? (ht : t.token.Legible) (h : atom? t = some f) : Legible f := by
  obtain ⟨token, p⟩ := t
  cases token <;> simp only [atom?, Option.some.injEq, reduceCtorEq] at h <;> subst h
  case nil => exact .nil
  case bool => exact .bool _
  case long => exact .long _
  case double => exact .double ht
  case str => exact .str _
  case char => exact .char _
  case keyword => exact .keyword ht
  case symbol => exact (Legible.symbol ht none).withInfo _

theorem mem_of_mem_pairUp {e : Form × Form} : ∀ {xs : List Form}, e ∈ pairUp xs → e.1 ∈ xs ∧ e.2 ∈ xs
  | [], h => nomatch h
  | [_], h => nomatch h
  | k :: v :: rest, h => by
    rw [pairUp, List.mem_cons] at h
    rcases h with rfl | h
    · simp
    · have := mem_of_mem_pairUp h
      simp [this.1, this.2]

theorem legible_finish {token : Token} {k : Enclosure} (hk : opening? token = some k) (hxs : ∀ x ∈ xs, Legible x)
    (h : k.finish xs p = .ok f) : Legible f := by
  cases token <;> simp only [opening?, Option.some.injEq, reduceCtorEq] at hk <;> subst hk <;> dsimp only at h
  case openParen =>
    obtain rfl := Except.ok.inj h
    exact (Legible.list hxs none).withInfo _
  case openBracket =>
    obtain rfl := Except.ok.inj h
    exact (Legible.vector hxs none).withInfo _
  case openSet =>
    unfold ofSetItems at h
    split at h
    · cases h
    · rename_i hd
      obtain rfl := Except.ok.inj h
      exact (Legible.set hxs hd none).withInfo _
  case openBrace =>
    unfold ofMapItems at h
    split at h
    · cases h
    · dsimp only at h
      split at h
      · cases h
      · rename_i hd
        obtain rfl := Except.ok.inj h
        exact (Legible.map (fun e he => hxs _ (mem_of_mem_pairUp he).1) (fun e he => hxs _ (mem_of_mem_pairUp he).2)
          hd none).withInfo _

theorem legible_sym {c : Char} {cs : List Char} (hc : Token.Solid c) (hcs : cs.all Token.isSymbolPart = true)
    (hs : Token.startOf c = .name) (hn : Token.ofName (String.ofList (c :: cs)) = .symbol (String.ofList (c :: cs))) :
    Legible (sym (String.ofList (c :: cs))) := by
  refine .symbol ?_ none
  have := Token.writes_name hc hcs (.inl hs)
  rw [hn] at this
  rw [Token.Legible, String.toList_ofList]
  exact this

theorem legible_quoting {token : Token} {name : String} (h : quoting? token = some name) : Legible (sym name) := by
  cases token <;> simp only [quoting?, Option.some.injEq, reduceCtorEq] at h <;> subst h
  · exact legible_sym (by decide) (by decide +kernel) rfl rfl
  · exact legible_sym (by decide) (by decide +kernel) rfl rfl

/-- **A row of legible tokens spells legible forms.** -/
theorem Row.legible (h : Row ts fs) : (∀ t ∈ ts, t.token.Legible) → ∀ f ∈ fs, Legible f := by
  induction h with
  | done =>
    intro _ _ hf
    cases hf
  | atom hf row ih =>
    intro ht
    obtain ⟨ht, hts⟩ := List.forall_mem_cons.mp ht
    exact List.forall_mem_cons.mpr ⟨legible_atom? ht hf, ih hts⟩
  | bracket hk hc items hf row ihItems ih =>
    intro ht
    simp only [List.forall_mem_cons, List.forall_mem_append] at ht
    obtain ⟨-, hts, -, hus⟩ := ht
    exact List.forall_mem_cons.mpr ⟨legible_finish hk (ihItems hts) hf, ih hus⟩
  | quoted hn row ih =>
    intro ht
    obtain ⟨hf, hfs⟩ := List.forall_mem_cons.mp (ih (List.forall_mem_cons.mp ht).2)
    have : ∀ x ∈ [sym _, _], Legible x := List.forall_mem_cons.mpr ⟨legible_quoting hn, by simpa using hf⟩
    exact List.forall_mem_cons.mpr ⟨(Legible.list this none).withInfo _, hfs⟩
  | annotated ht row hm hg ih =>
    intro hts
    obtain ⟨-, hfs⟩ := List.forall_mem_cons.mp (ih (List.forall_mem_cons.mp hts).2)
    obtain ⟨hf, hfs⟩ := List.forall_mem_cons.mp hfs
    refine List.forall_mem_cons.mpr ⟨?_, hfs⟩
    unfold annotate at hg
    split at hg
    · obtain rfl := Except.ok.inj hg
      exact hf.withInfo _
    · cases hg
  | dropped ht row ih =>
    intro hts
    exact (List.forall_mem_cons.mp (ih (List.forall_mem_cons.mp hts).2)).2

/-! ## Forms of a text -/

theorem legible_of_readOne (h : readOne s = .ok f) : Legible f := by
  obtain ⟨ts, hlexes, hrow⟩ := exists_row_of_readOne h
  exact hrow.legible (fun t ht => hlexes.legible _ (List.mem_map_of_mem ht)) f List.mem_cons_self

theorem legible_of_readAll (h : readAll s = .ok fs) : ∀ f ∈ fs, Legible f := by
  obtain ⟨ts, hlexes, hrow⟩ := exists_row_of_readAll h
  exact hrow.legible fun t ht => hlexes.legible _ (List.mem_map_of_mem ht)

theorem Legible.double_ne_nan (h : Legible f) : ∀ d ∈ f.doubles, d ≠ Float.nan := by
  induction h with
  | nil | bool | long | char | str | keyword | symbol =>
    intro d hd
    simp [doubles] at hd
  | double h =>
    intro d hd
    obtain rfl := List.mem_singleton.mp (by simpa only [doubles] using hd)
    exact h
  | list h info ih | vector h info ih | set h hd info ih =>
    intro d hd
    obtain ⟨x, hx, hd⟩ := mem_doublesOf.mp (by simpa only [doubles] using hd)
    exact ih x hx d hd
  | map hk hv hd info ihk ihv =>
    intro d hd
    obtain ⟨e, he, hd | hd⟩ := mem_doublesOfPairs.mp (by simpa only [doubles] using hd)
    · exact ihk e he d hd
    · exact ihv e he d hd

end LispMachine.Form
