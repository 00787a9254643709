import LispMachine.Proofs.Form.Places
import LispMachine.Proofs.Form.Readable
import LispMachine.Proofs.Token.Lines
/-!
# What texts mean

`Means cs fs` says that a text is cut into tokens that spell these forms, up to metadata; such a text is read as
these forms.  If it is cut behind a line break, the part in front of the cut ends too early, in a string or in a
form, or it is read by itself, and what follows means the forms that are left (`Means.split`).
-/
namespace LispMachine

/-- The text ends too early: in a string, or in a form. -/
def SourceError.IsCut : SourceError → Prop
  | .lex fault => fault.cause = .openString
  | .read fault => fault.cause.IsCut

namespace Form

open Token (Lexes Ended)

variable {s : String} {cs ds Q : List Char} {us : List Token} {ts : List Located} {fs gs : List Form} {f : Form}

/-! ## Tokens of a text -/

theorem tokensOf_eq (h : Token.tokenize s = .ok ts) : tokensOf s = .ok ts := by
  rw [tokensOf, h]
  rfl

theorem tokenize_of_tokensOf (h : tokensOf s = .ok ts) : Token.tokenize s = .ok ts := by
  rw [tokensOf] at h
  cases hs : Token.tokenize s with
  | error fault =>
    rw [hs] at h
    cases h
  | ok us =>
    rw [hs] at h
    exact congrArg _ (Except.ok.inj h)

theorem readAll_eq (h : Token.tokenize s = .ok ts) : readAll s = match readEach ts with
    | (_, some fault) => .error (.read fault)
    | (forms, none) => .ok forms := by
  rw [readAll, tokensOf_eq h]
  rfl

theorem readAll_of_fault {cause : LexError} (h : Lexes s.toList us (some cause)) :
    ∃ p, readAll s = .error (.lex ⟨cause, p⟩) := by
  obtain ⟨p, hp⟩ := Token.tokenize_of_fault h
  refine ⟨p, ?_⟩
  rw [readAll, tokensOf, hp]
  rfl

/-- A text that reads as one form is cut into tokens that spell it. -/
theorem exists_row_of_readOne (h : readOne s = .ok f) : ∃ ts, Lexes s.toList (ts.map (·.token)) none ∧ Row ts [f] := by
  obtain ⟨all, htokens, hread⟩ := exists_of_bind h
  obtain ⟨ts, e, rfl, he, hlexes⟩ := Token.lexes_of_tokenize (tokenize_of_tokensOf htokens)
  refine ⟨ts, hlexes, row_of_readSingle (show tokenOf [e] = .eof from he) (fun t ht => hlexes.ne_eof _ (List.mem_map_of_mem ht)) ?_⟩
  cases hsingle : readSingle (ts ++ [e]) with
  | error fault =>
    rw [hsingle] at hread
    cases hread
  | ok g =>
    rw [hsingle] at hread
    exact congrArg _ (Except.ok.inj hread)

/-- The tokens of a text that reads spell its forms where they stand. -/
theorem exists_tokens_of_readAll (h : readAll s = .ok fs) : ∃ (ts : List Located) (e : Located), e.token = .eof ∧
    Token.tokenize s = .ok (ts ++ [e]) ∧ Lexes s.toList (ts.map (·.token)) none ∧ Row ts fs := by
  obtain ⟨all, htokens, hread⟩ := exists_of_bind h
  have htokenize := tokenize_of_tokensOf htokens
  obtain ⟨ts, e, rfl, he, hlexes⟩ := Token.lexes_of_tokenize htokenize
  refine ⟨ts, e, he, htokenize, hlexes,
    row_of_readEach (show tokenOf [e] = .eof from he) (fun t ht => hlexes.ne_eof _ (List.mem_map_of_mem ht)) ?_⟩
  split at hread
  · cases hread
  · rename_i heq
    rw [heq, Except.ok.inj hread]

/-- A text that reads is cut into tokens that spell its forms. -/
theorem exists_row_of_readAll (h : readAll s = .ok fs) : ∃ ts, Lexes s.toList (ts.map (·.token)) none ∧ Row ts fs := by
  obtain ⟨ts, e, -, -, hlexes, hrow⟩ := exists_tokens_of_readAll h
  exact ⟨ts, hlexes, hrow⟩

/-! ## What a text means -/

/-- The text is cut into tokens that spell these forms, up to metadata. -/
def Means (cs : List Char) (fs : List Form) : Prop :=
  ∃ (ts : List Located) (gs : List Form), Lexes cs (ts.map (·.token)) none ∧ Row ts gs ∧ gs.map bare = fs.map bare

theorem means_of_readAll (h : readAll s = .ok fs) : Means s.toList fs := by
  obtain ⟨ts, hlexes, hrow⟩ := exists_row_of_readAll h
  exact ⟨ts, fs, hlexes, hrow, rfl⟩

theorem Means.skip (h : Means cs fs) (hs : Token.skipBlanks ds = Token.skipBlanks cs) : Means ds fs := by
  obtain ⟨ts, gs, hlexes, hrow, hbare⟩ := h
  exact ⟨ts, gs, hlexes.skip hs, hrow, hbare⟩

theorem Means.append_break (h : Means cs fs) : Means (cs ++ ['\n']) fs := by
  obtain ⟨ts, gs, hlexes, hrow, hbare⟩ := h
  refine ⟨ts, gs, ?_, hrow, hbare⟩
  have := hlexes.append_break (Q := ['\n']) rfl (.done (by decide +kernel))
  simpa using this

theorem Means.eq_nil (h : Means [] fs) : fs = [] := by
  obtain ⟨ts, gs, hlexes, hrow, hbare⟩ := h
  obtain ⟨hts, -⟩ := (Lexes.done (by rw [Token.skipBlanks]) : Lexes [] [] none).unique hlexes
  obtain rfl := List.map_eq_nil_iff.mp hts
  obtain rfl := hrow.eq_nil
  exact List.map_eq_nil_iff.mp hbare.symm

theorem Means.readAll (h : Means s.toList fs) : ∃ gs, Form.readAll s = .ok gs ∧ gs.map bare = fs.map bare := by
  obtain ⟨ts, gs, hlexes, hrow, hbare⟩ := h
  obtain ⟨us, e, hus, he, htokenize⟩ := Token.tokenize_of_lexes hlexes
  obtain ⟨hs, hrow, hgs⟩ := hrow.relocate hus
  refine ⟨hs, ?_, hgs.trans hbare⟩
  rw [readAll_eq htokenize, hrow.pieces.readEach he]

theorem Means.readOne (h : Means s.toList [f]) : ∃ g, Form.readOne s = .ok g ∧ g.bare = f.bare := by
  obtain ⟨ts, gs, hlexes, hrow, hbare⟩ := h
  obtain ⟨us, e, hus, he, htokenize⟩ := Token.tokenize_of_lexes hlexes
  obtain ⟨hs, hrow, hgs⟩ := hrow.relocate hus
  obtain ⟨g, rfl, hg⟩ := List.map_eq_singleton_iff.mp (hgs.trans hbare)
  refine ⟨g, ?_, hg⟩
  rw [Form.readOne, tokensOf_eq htokenize]
  simp only [bind, Except.bind, hrow.readSingle he]
  rfl

/-- **A text that is cut behind a line break**: the part in front of it ends too early, or it is read by itself and
what follows means the forms that are left. -/
theorem Means.split (h : Means (s.toList ++ Q) fs) (hs : Ended s.toList) :
    (∃ e, Form.readAll s = .error e ∧ e.IsCut) ∨
      ∃ gs hs, Form.readAll s = .ok gs ∧ (gs ++ hs).map bare = fs.map bare ∧ Means Q hs := by
  obtain ⟨ts, gs, hlexes, hrow, hbare⟩ := h
  rcases hlexes.split hs with ⟨us, vs, hts, hus, hvs⟩ | ⟨us, hopen⟩
  · obtain ⟨ts, rs, rfl, rfl, rfl⟩ := List.map_eq_append_iff.mp hts
    obtain ⟨ps, e, hps, he, htokenize⟩ := Token.tokenize_of_lexes hus
    have hsame : (ps ++ rs).map (·.token) = (ts ++ rs).map (·.token) := by simp [hps]
    obtain ⟨ks, hrow, hks⟩ := hrow.relocate hsame
    rw [readAll_eq htokenize]
    rcases readEach_part hrow he with hnone | ⟨fault, hfault, hcut⟩
    · cases hread : readEach (ps ++ [e]) with
      | mk xs o =>
        obtain rfl : o = none := by rwa [hread] at hnone
        have hne : ∀ t ∈ ps, t.token ≠ .eof := fun t ht => hrow.ne_eof t (List.mem_append_left _ ht)
        obtain ⟨hs, rfl, hrest⟩ := (row_of_readEach (show tokenOf [e] = .eof from he) hne hread).drop_row hrow
        exact .inr ⟨xs, hs, rfl, hks.trans hbare, rs, hs, hvs, hrest, rfl⟩
    · cases hread : readEach (ps ++ [e]) with
      | mk xs o =>
        obtain rfl : o = some fault := by rwa [hread] at hfault
        exact .inl ⟨_, rfl, hcut⟩
  · obtain ⟨p, hp⟩ := readAll_of_fault hopen
    exact .inl ⟨_, hp, rfl⟩

end Form

end LispMachine
