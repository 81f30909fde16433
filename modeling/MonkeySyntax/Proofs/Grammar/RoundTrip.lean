import MonkeySyntax.Proofs.Grammar.Consistency
import MonkeySyntax.Proofs.Grammar.Parsing
import MonkeySyntax.Proofs.Grammar.Printed

/-!
# MonkeySyntax — printing and reading again

A well-formed program is printed as a source of the grammar, so it is read again without a
diagnostic, and what is read has its shape. What a parser gives is well formed whatever the source
was, so to print it and read it again changes nothing that is printed.

* **`parse_render_shape`** — a program that can have been made by hand.
* **`parse_render_parse`** — a program that was read, from a broken source perhaps.
-/

namespace MonkeySyntax

/-- The tokens of a source, at no place. -/
theorem map_bare_ahead (source : String) :
    (Parser.ofSource source).ahead.map Token.bare = lexemes (utf8 source) := rfl

/-- A printed program is read again, as a consistent one of the same shape. -/
theorem exists_parse_render {program : Program} (h : program.WellFormed) :
    ∃ again, parse program.render = (again, []) ∧ again.shape = program.shape ∧
      again.Consistent := by
  have htokens : (Parser.ofSource program.render).ahead.map Token.bare =
      Stmt.printedEach program.statements := by
    rw [map_bare_ahead, Program.lexemes_render h]
  have hfollows : TokenKind.eof.followsStatement = true := rfl
  obtain ⟨statements, hderives, hshape⟩ := Stmt.derives_printedEach hfollows h htokens
  have hparse := parse_of_derives hderives
  have hconsistent := consistent_program program.render
  rw [hparse] at hconsistent
  exact ⟨⟨statements⟩, hparse, congrArg Program.mk hshape, hconsistent⟩

/-- **A printed program is read again.** There is no diagnostic and the shape is the same; the
tokens are those that the nodes are read from. If they were so before, nothing has changed but the
places of tokens, and the first tokens of statements that are expressions. -/
theorem parse_render_shape {program : Program} (h : program.WellFormed) :
    ∃ again, parse program.render = (again, []) ∧ again.shape = program.shape ∧
      again.Consistent ∧ (program.Consistent → again.bare = program.bare) := by
  obtain ⟨again, hparse, hshape, hagain⟩ := exists_parse_render h
  refine ⟨again, hparse, hshape, hagain, ?_⟩
  -- where all tokens are those of the shape, to keep the shape is to keep the tokens
  intro hprogram
  rw [hagain.bare_eq, hprogram.bare_eq, hshape]

/-- A function and a call of it, made by hand: only tokens whose text is printed are there. -/
theorem parse_render_shape_by_hand :
    ∃ program : Program, program.WellFormed ∧
      program.render = "let f = fn(x) \x7b return (-x); \x7d;\nf(7, true);" ∧
      ∃ again, parse program.render = (again, []) ∧ again.shape = program.shape ∧
        again.Consistent ∧ (program.Consistent → again.bare = program.bare) := by
  have hfunction : Stmt.Meets .wellFormed
      (.letBinding ⟨.eof, "let", default⟩ ⟨default, "f"⟩
        (.function ⟨.eof, "fn", default⟩ [⟨default, "x"⟩]
          (.mk default [.returnValue ⟨.eof, "return", default⟩
            (some (.prefixOp default "-" (.identifier ⟨default, "x"⟩)))]))) := by
    have hf : IsName "f" := by decide
    have hx : IsName "x" := by decide
    have hname : ∀ name ∈ [Identifier.mk default "x"], IsName name.value :=
      List.forall_mem_singleton.mpr hx
    have hminus : "-" ∈ prefixOperators.map Prod.fst := by decide
    exact ⟨rfl, hf, rfl, hname, trivial, ⟨rfl, hminus, hx⟩, trivial⟩
  have hcall : Stmt.Meets .wellFormed
      (.expression default (.call default (.identifier ⟨default, "f"⟩)
        [.integer ⟨.eof, "7", default⟩ 7, .boolean ⟨.eof, "true", default⟩ true])) := by
    have hf : IsName "f" := by decide
    have hnumber : IsNumber "7" ∧ (7 : Int) = decimalValue "7".toList ∧
        (7 : Int) ≤ largestInteger := by
      decide
    exact ⟨trivial, hf, hnumber, rfl, trivial⟩
  have hprogram : Program.WellFormed ⟨[_, _]⟩ := ⟨hfunction, hcall, trivial⟩
  exact ⟨_, hprogram, by decide, parse_render_shape hprogram⟩

/-- **What is read is consistent, and printing it is final.** For every source, with any number of
diagnostics, the program that is read has nodes with the values of their tokens; it is printed as a
source without a diagnostic, which is read as a program of the same shape and printed as it is. -/
theorem parse_render_parse (source : String) :
    (parse source).1.Consistent ∧
      ∃ again, parse (parse source).1.render = (again, []) ∧
        again.shape = (parse source).1.shape ∧ again.bare = (parse source).1.bare ∧
        again.render = (parse source).1.render := by
  have hfirst := consistent_program source
  obtain ⟨again, hparse, hshape, hagain⟩ := exists_parse_render hfirst.wellFormed
  refine ⟨hfirst, again, hparse, hshape, ?_, ?_⟩
  · rw [hagain.bare_eq, hfirst.bare_eq, hshape]
  · exact hagain.wellFormed.render_eq hfirst.wellFormed hshape

end MonkeySyntax
