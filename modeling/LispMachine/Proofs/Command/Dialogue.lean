import Mathlib.Data.List.DropRight
import LispMachine.Command.Repl
import LispMachine.Proofs.Form.Legible
/-!
# The dialogue reads what the whole text says

Lines are collected until they read as complete forms.  `handed` says which texts are handed over to the session for
a sequence of lines, without looking at the session.  A text that ends too early is reported with a message by which
the dialogue keeps it (`isIncomplete_of_isCut`), and whatever else is handed over reads; so the lines of a text that
reads lead to the same forms as the whole text (`handleLines_reads`).
-/
namespace LispMachine.Repl

open Form (Means)
open Token (Ended)

variable {buffer line s : String} {lines : List String} {fs gs : List Form} {r : Repl}

/-! ## Lines -/

/-- Every line with its end.  A carriage return in front of the end belongs to the line. -/
def textOf : List String → String
  | [] => ""
  | line :: lines => line ++ "\n" ++ textOf lines

theorem dropReturn_of_not_mem {line : List Char} (h : '\r' ∉ line) : inputLines.dropReturn line = line := by
  unfold inputLines.dropReturn
  split
  · exact absurd List.mem_cons_self h
  · rfl

theorem textOf_go {line cs : List Char} (hline : '\r' ∉ line) (hcs : '\r' ∉ cs) :
    (textOf ((inputLines.go line cs).map String.ofList)).toList = line.reverse ++ cs ∨
      (textOf ((inputLines.go line cs).map String.ofList)).toList = line.reverse ++ cs ++ ['\n'] := by
  fun_induction inputLines.go line cs with
  | case1 line hempty => simp_all [textOf]
  | case2 line hempty => simp [textOf]
  | case3 line rest ih =>
    rcases ih List.not_mem_nil (fun h => hcs (List.mem_cons_of_mem _ h)) with h | h <;>
      simp [textOf, h, dropReturn_of_not_mem hline]
  | case4 line c rest hc ih =>
    rw [List.mem_cons, not_or] at hcs
    have hmem : '\r' ∉ c :: line := by
      rw [List.mem_cons, not_or]
      exact ⟨hcs.1, hline⟩
    simpa using ih hmem hcs.2

/-- The lines of a text without carriage returns are its lines; the last one need not be ended. -/
theorem textOf_inputLines {t : String} (h : '\r' ∉ t.toList) :
    textOf (inputLines t) = t ∨ textOf (inputLines t) = t ++ "\n" := by
  rw [← String.toList_inj, ← String.toList_inj, String.toList_append]
  exact textOf_go List.not_mem_nil h

/-- What is collected after a line that is no command, and the text that is handed over. -/
def step (buffer line : String) : String × Option String :=
  match request buffer line with
  | .source line => collect buffer line
  | _ => (buffer, none)

/-- The texts that are handed over for these lines, in order, and what is collected behind the last line. -/
def handed : String → List String → List String × String
  | buffer, [] => ([], buffer)
  | buffer, line :: lines =>
    let (buffer, complete) := step buffer line
    let (texts, left) := handed buffer lines
    (complete.toList ++ texts, left)

theorem handed_cons (buffer line : String) (lines : List String) : handed buffer (line :: lines) =
    ((step buffer line).2.toList ++ (handed (step buffer line).1 lines).1, (handed (step buffer line).1 lines).2) := rfl

/-- No line is a command: the first character that is not blank is no colon, unless the line continues a form. -/
def Quiet : String → List String → Prop
  | _, [] => True
  | buffer, line :: lines =>
    (buffer = "" → (line.toList.dropWhile Text.isBlank).head? ≠ some ':') ∧ Quiet (step buffer line).1 lines

instance Quiet.decidable : ∀ (buffer : String) (lines : List String), Decidable (Quiet buffer lines)
  | _, [] => .isTrue trivial
  | buffer, line :: lines =>
    have := Quiet.decidable (step buffer line).1 lines
    inferInstanceAs (Decidable (_ ∧ _))

theorem trim_of_blank (h : s.toList.dropWhile Text.isBlank = []) : Text.trim s = "" := by
  rw [Text.trim, h]
  rfl

/-- The first character that is not blank stays in front. -/
theorem trim_of_cons {c : Char} {cs : List Char} (h : s.toList.dropWhile Text.isBlank = c :: cs) :
    ∃ ds, (Text.trim s).toList = c :: ds := by
  have hc : Text.isBlank c = false := by
    have := List.head?_dropWhile_not Text.isBlank s.toList
    rw [h] at this
    simpa using this
  have htrim : (Text.trim s).toList = (c :: cs).rdropWhile Text.isBlank := by
    rw [Text.trim, String.toList_ofList, h]
    rfl
  have hne : (c :: cs).rdropWhile Text.isBlank ≠ [] := by
    rw [Ne, List.rdropWhile_eq_nil_iff]
    intro hall
    rw [hall c List.mem_cons_self] at hc
    cases hc
  obtain ⟨d, ds, hds⟩ := List.exists_cons_of_ne_nil hne
  have hprefix := List.rdropWhile_prefix Text.isBlank (c :: cs)
  rw [hds, List.cons_prefix_cons] at hprefix
  exact ⟨ds, by rw [htrim, hds, hprefix.1]⟩

/-- Only a blank line without a text in front of it is passed over. -/
theorem request_cases (h : buffer = "" → (line.toList.dropWhile Text.isBlank).head? ≠ some ':') :
    request buffer line = .source line ∨
      buffer = "" ∧ (∀ c ∈ line.toList, Text.isBlank c = true) ∧ request buffer line = .nothing := by
  unfold request
  by_cases hbuffer : buffer = ""
  · have h := h hbuffer
    subst hbuffer
    rw [if_pos (by decide)]
    cases hs : line.toList.dropWhile Text.isBlank with
    | nil => exact .inr ⟨rfl, List.dropWhile_eq_nil_iff.mp hs, by rw [trim_of_blank hs]; rfl⟩
    | cons c cs =>
      obtain ⟨ds, hds⟩ := trim_of_cons hs
      have hcolon : (Text.trim line).startsWith ":" = false := by
        rw [String.startsWith_string_eq_false_iff, hds, show ":".toList = [':'] from rfl, List.cons_prefix_cons]
        rintro ⟨rfl, -⟩
        rw [hs] at h
        exact h rfl rfl
      have hne : ¬ (Text.trim line).isEmpty = true := by
        rw [String.isEmpty_iff]
        intro hempty
        rw [hempty] at hds
        cases hds
      dsimp only
      rw [if_neg hne, hcolon]
      exact .inl rfl
  · rw [if_neg (by rwa [String.isEmpty_iff])]
    exact .inl rfl

/-- What a line that is no command does. -/
inductive Stepped (buffer line : String) : String × Option String → Prop
  | passed (hbuffer : buffer = "") (hline : ∀ c ∈ line.toList, Text.isBlank c = true) : Stepped buffer line ("", none)
  | kept (h : isIncomplete (buffer ++ line ++ "\n") = true) : Stepped buffer line (buffer ++ line ++ "\n", none)
  | complete (h : isIncomplete (buffer ++ line ++ "\n") = false) :
      Stepped buffer line ("", some (buffer ++ line ++ "\n"))

theorem stepped (h : buffer = "" → (line.toList.dropWhile Text.isBlank).head? ≠ some ':') :
    Stepped buffer line (step buffer line) := by
  rcases request_cases h with hrequest | ⟨rfl, hline, hrequest⟩
  · rw [step, hrequest]
    dsimp only [collect]
    split
    · exact .kept ‹_›
    · rename_i hinc
      exact .complete (by simpa using hinc)
  · rw [step, hrequest]
    exact .passed rfl hline

/-! ## What the session is given -/

/-- The session evaluates a text and its result is shown. -/
def handOver (r : Repl) (source : String) : Repl := r.conclude (r.session.load source) valueLine

theorem foldl_complain_buffer {α : Type} (text : α → String) (xs : List α) (r : Repl) :
    (xs.foldl (fun r x => r.complain (text x)) r).buffer = r.buffer := by
  induction xs generalizing r with
  | nil => rfl
  | cons x xs ih => exact ih _

theorem flush_buffer (r : Repl) : r.flush.buffer = r.buffer :=
  foldl_complain_buffer _ _ _

theorem handOver_buffer (r : Repl) (source : String) : (r.handOver source).buffer = r.buffer := by
  unfold handOver conclude
  dsimp only
  split
  · exact flush_buffer _
  · exact flush_buffer _
  · exact flush_buffer _

theorem foldl_handOver_buffer (texts : List String) (r : Repl) : (texts.foldl handOver r).buffer = r.buffer := by
  induction texts generalizing r with
  | nil => rfl
  | cons text texts ih =>
    rw [List.foldl_cons, ih, handOver_buffer]

/-- What a session has printed and warned about is taken out of it. -/
def emptied (s : Session) : Session := { s with world := { s.world with out := "" }, warnings := [] }

/-- The session goes on from where the load of the text has left it, once what it has to show is shown. -/
theorem handOver_session (r : Repl) (source : String) : (r.handOver source).session = emptied (r.session.load source).2 := by
  unfold handOver conclude
  dsimp only
  split <;> rfl

/-- For a row of texts it is loaded with one after the other. -/
theorem foldl_handOver_session (texts : List String) (r : Repl) :
    (texts.foldl handOver r).session = texts.foldl (fun s text => emptied (s.load text).2) r.session := by
  induction texts generalizing r with
  | nil => rfl
  | cons text texts ih =>
    rw [List.foldl_cons, ih, handOver_session, List.foldl_cons]

def withBuffer (r : Repl) (buffer : String) : Repl := { r with buffer }

theorem withBuffer_self (h : r.buffer = buffer) : r.withBuffer buffer = r := by
  subst h
  rfl

/-- The dialogue after a line that is no command. -/
def advance (r : Repl) : String × Option String → Repl
  | (buffer, none) => r.withBuffer buffer
  | (buffer, some source) => handOver (r.withBuffer buffer) source

theorem feed_eq (r : Repl) (line : String) : r.feed line = r.advance (collect r.buffer line) := by
  unfold feed
  obtain ⟨buffer, complete⟩ := collect r.buffer line
  cases complete <;> rfl

theorem handleLine_eq {m : Type → Type} [Monad m] (read : String → m (Except String String))
    (h : r.buffer = "" → (line.toList.dropWhile Text.isBlank).head? ≠ some ':') :
    r.handleLine read line = pure (r.advance (step r.buffer line), true) := by
  unfold handleLine step
  rcases request_cases h with hrequest | ⟨-, -, hrequest⟩
  · rw [hrequest, answer, feed_eq]
  · rw [hrequest, answer]
    rfl

/-- **The session is given exactly the texts that are handed over.** -/
theorem handleLines_eq {m : Type → Type} [Monad m] [LawfulMonad m] (read : String → m (Except String String))
    (hquiet : Quiet r.buffer lines) : handleLines read r lines =
      pure ((((handed r.buffer lines).1.foldl handOver (r.withBuffer "")).withBuffer
        (handed r.buffer lines).2).print farewell) := by
  induction lines generalizing r with
  | nil => rfl
  | cons line lines ih =>
    obtain ⟨hline, hquiet⟩ := hquiet
    rw [handleLines, handleLine_eq read hline, pure_bind, handed_cons]
    have hstep := stepped hline
    generalize step r.buffer line = next at hquiet hstep ⊢
    cases hstep with
    | passed => exact ih (r := r.withBuffer "") hquiet
    | kept => exact ih (r := r.withBuffer (r.buffer ++ line ++ "\n")) hquiet
    | complete =>
      have hbuffer : (handOver (r.withBuffer "") (r.buffer ++ line ++ "\n")).buffer = "" := handOver_buffer _ _
      have hlines := ih (r := handOver (r.withBuffer "") (r.buffer ++ line ++ "\n")) (by rwa [hbuffer])
      rw [withBuffer_self hbuffer, hbuffer] at hlines
      exact hlines

/-! ## Incomplete texts -/

theorem isIncomplete_of_isCut {e : SourceError} (h : Form.readAll s = .error e) (hcut : e.IsCut) :
    isIncomplete s = true := by
  rw [isIncomplete, h]
  dsimp only
  rw [String.startsWith_string_iff]
  rcases e with ⟨cause, p⟩ | ⟨cause, p⟩
  · obtain rfl : cause = .openString := hcut
    exact (by decide : "EOF while reading".toList <+: "EOF while reading string".toList)
  · cases cause with
    | endOfInput => exact List.prefix_rfl
    | unclosed what =>
      have hspace : "EOF while reading".toList <+: "EOF while reading ".toList := by decide +kernel
      change _ <+: ("EOF while reading " ++ what).toList
      rw [String.toList_append]
      exact hspace.trans (List.prefix_append _ _)
    | trailing | duplicate | oddMap | badMetadata | badMetadataTarget | unmatched => exact hcut.elim

theorem isIncomplete_of_ok (h : Form.readAll s = .ok fs) : isIncomplete s = false := by
  rw [isIncomplete, h]

theorem skipBlanks_blank {cs : List Char} (h : ∀ c ∈ cs, Text.isBlank c = true) (ds : List Char) :
    Token.skipBlanks (cs ++ ds) = Token.skipBlanks ds := by
  induction cs with
  | nil => rfl
  | cons c cs ih =>
    obtain ⟨hc, hcs⟩ := List.forall_mem_cons.mp h
    rw [List.cons_append, Token.skipBlanks, if_pos (by simp [hc]), ih hcs]

/-- **What is handed over for the lines of a text** reads, and as the forms of the text; nothing is left. -/
theorem handed_reads (hquiet : Quiet buffer lines) (hended : Ended buffer.toList)
    (hbuffer : buffer = "" ∨ isIncomplete buffer = true) (h : Means (buffer ++ textOf lines).toList fs) :
    ∃ formss, List.Forall₂ (fun text gs => Form.readAll text = .ok gs) (handed buffer lines).1 formss ∧
      formss.flatten.map Form.bare = fs.map Form.bare ∧ (handed buffer lines).2 = "" := by
  induction lines generalizing buffer fs with
  | nil =>
    rcases hbuffer with rfl | hinc
    · obtain rfl := h.eq_nil
      exact ⟨[], .nil, rfl, rfl⟩
    · rw [textOf, String.append_empty] at h
      obtain ⟨gs, hgs, -⟩ := h.readAll
      rw [isIncomplete_of_ok hgs] at hinc
      cases hinc
  | cons line lines ih =>
    obtain ⟨hline, hquiet⟩ := hquiet
    have htext : buffer ++ textOf (line :: lines) = buffer ++ line ++ "\n" ++ textOf lines := by
      simp [textOf, String.append_assoc]
    have hended : Ended (buffer ++ line ++ "\n").toList := .inr (by simp)
    rw [htext, String.toList_append] at h
    rw [handed_cons]
    have hstep := stepped hline
    generalize step buffer line = next at hquiet hstep ⊢
    cases hstep with
    | passed hbuffer hblank =>
      refine ih hquiet (.inl rfl) (.inl rfl) (h.skip ?_)
      have : ∀ c ∈ line.toList ++ ['\n'], Text.isBlank c = true := by
        rw [List.forall_mem_append]
        exact ⟨hblank, List.forall_mem_singleton.mpr (by decide +kernel)⟩
      have := skipBlanks_blank this (textOf lines).toList
      simpa [hbuffer] using this.symm
    | kept hinc => exact ih hquiet hended (.inr hinc) (by rwa [String.toList_append])
    | complete hinc =>
      rcases h.split hended with ⟨e, he, hcut⟩ | ⟨gs, hs, hread, hbare, hrest⟩
      · rw [isIncomplete_of_isCut he hcut] at hinc
        cases hinc
      · obtain ⟨formss, hformss, hflat, hleft⟩ := ih hquiet (.inl rfl) (.inl rfl) (by simpa using hrest)
        refine ⟨gs :: formss, .cons hread hformss, ?_, hleft⟩
        rw [← hbare, List.flatten_cons, List.map_append, List.map_append, hflat]

theorem beq_of_map_bare_eq (hbare : gs.map Form.bare = fs.map Form.bare)
    (h : ∀ f ∈ fs, ∀ d ∈ f.doubles, (d == d) = true) : (gs == fs) = true := by
  induction fs generalizing gs with
  | nil =>
    obtain rfl := List.map_eq_nil_iff.mp hbare
    rfl
  | cons f fs ih =>
    obtain ⟨g, gs, rfl, hg, hgs⟩ := List.map_eq_cons_iff.mp hbare
    obtain ⟨hf, hfs⟩ := List.forall_mem_cons.mp h
    rw [List.cons_beq_cons, Form.beq_of_bare_eq hg hf, ih hgs hfs]
    rfl

/-- **Line by line, the dialogue loads the forms of the whole text.**  The lines are those of the text with nothing but the
breaks taken away; `inputLines` takes away a carriage return in front of a break too, and so it gives these lines for the texts
that have none (`textOf_inputLines`). -/
theorem handleLines_reads {t : String} {m : Type → Type} [Monad m] [LawfulMonad m]
    (read : String → m (Except String String)) (ht : Form.readAll t = .ok fs)
    (hlines : textOf lines = t ∨ textOf lines = t ++ "\n") (hbuffer : r.buffer = "") (hquiet : Quiet "" lines) :
    ∃ formss, List.Forall₂ (fun text gs => Form.readAll text = .ok gs) (handed "" lines).1 formss ∧
      (formss.flatten == fs) = true ∧ (handed "" lines).2 = "" ∧
      handleLines read r lines = pure (((handed "" lines).1.foldl handOver r).print farewell) ∧
      ((handed "" lines).1.foldl handOver r).buffer = "" := by
  have hmeans : Means (textOf lines).toList fs := by
    rcases hlines with hlines | hlines
    · rw [hlines]
      exact Form.means_of_readAll ht
    · rw [hlines, String.toList_append]
      exact (Form.means_of_readAll ht).append_break
  obtain ⟨formss, hformss, hbare, hleft⟩ := handed_reads hquiet (.inl rfl) (.inl rfl) (by simpa using hmeans)
  have hnan : ∀ f ∈ fs, ∀ d ∈ f.doubles, (d == d) = true := fun f hf d hd =>
    Float.beq_self_iff.mpr ((Form.legible_of_readAll ht f hf).double_ne_nan d hd)
  refine ⟨formss, hformss, beq_of_map_bare_eq hbare hnan, hleft, ?_, by rw [foldl_handOver_buffer, hbuffer]⟩
  rw [handleLines_eq read (hbuffer ▸ hquiet), hbuffer, hleft, withBuffer_self hbuffer,
    withBuffer_self (by rw [foldl_handOver_buffer, hbuffer])]

/-- A form that is spread over lines, one of which starts with a colon, and a second form. -/
theorem handleLines_reads_spread : ∃ t fs formss, t = "(f \"a\n:b\" [\n1.5])\n\n\x27x" ∧ Form.readAll t = .ok fs ∧
    (handed "" (inputLines t)).1 = ["(f \"a\n:b\" [\n1.5])\n", "\x27x\n"] ∧ Quiet "" (inputLines t) ∧
    List.Forall₂ (fun text gs => Form.readAll text = .ok gs) (handed "" (inputLines t)).1 formss ∧
    (formss.flatten == fs) = true ∧ (handed "" (inputLines t)).2 = "" ∧
    handleLines (m := Id) (fun _ => .error "") { session := .start {} } (inputLines t) =
      (((handed "" (inputLines t)).1.foldl handOver { session := .start {} }).print farewell) := by
  have hread : (Form.readAll "(f \"a\n:b\" [\n1.5])\n\n\x27x").toOption.isSome = true := by decide +kernel
  have hquiet : Quiet "" (inputLines "(f \"a\n:b\" [\n1.5])\n\n\x27x") := by decide +kernel
  cases hfs : Form.readAll "(f \"a\n:b\" [\n1.5])\n\n\x27x" with
  | error e =>
    rw [hfs] at hread
    cases hread
  | ok fs =>
    obtain ⟨formss, hformss, hbeq, hleft, hrun, -⟩ := handleLines_reads (m := Id) (r := { session := .start {} })
      (fun _ => .error "") hfs (textOf_inputLines (by decide +kernel)) rfl hquiet
    exact ⟨_, fs, formss, rfl, hfs, by decide +kernel, hquiet, hformss, hbeq, hleft, hrun⟩

end LispMachine.Repl
