import Pagewright.Page.Compiler
import Pagewright.Proofs.Page.Passes

/-! What a page compiles to: it depends on its source and on which script compiler is found, but
not on whether that compiler was looked up before. -/
namespace Pagewright

namespace Script

variable {env : Environment}

/-- A toolchain keeps what it has found. -/
@[simp] theorem Toolchain.resolve_started (tool : Toolchain) (env : Environment) :
    (tool.started env).resolve env = tool.resolve env := rfl

theorem Toolchain.compile_of_resolve {tool tool' : Toolchain}
    (h : tool.resolve env = tool'.resolve env) (r : Request) :
    tool.compile env r = tool'.compile env r := by
  rw [compile, compile, h]

namespace Shared

variable {tool tool' : Shared}

@[simp] theorem resolve_started (tool : Shared) (env : Environment) :
    (tool.started env).resolve env = tool.resolve env := by
  cases tool <;> rfl

/-- What is found under its name decides what the shared compiler does, or that it has none. -/
theorem compile_of_resolve (h : tool.resolve env = tool'.resolve env) (r : Request) :
    tool.compile env r = tool'.compile env r := by
  cases tool with
  | named t =>
    cases tool' with
    | named t' =>
      unfold compile
      dsimp only
      rw [Toolchain.compile_of_resolve (Except.ok.inj h) r]
    | unnamed cause' => cases h
  | unnamed cause =>
    cases tool' with
    | named t' => cases h
    | unnamed cause' => rw [Except.error.inj h]

end Shared

end Script

/-- What a caller sees of a compilation. -/
def Compiled.answer (c : Compiled) : String × List String := (c.html, c.scriptSources)

section compilePage

variable (env : Script.Environment) (options : Options) (render : String → String)

theorem rules_of_resolve {tool tool' : Script.Shared}
    (h : tool.resolve env = tool'.resolve env) :
    options.rules env tool = options.rules env tool' := by
  have hcompile := Script.Shared.compile_of_resolve h
  simp only [Options.rules, hcompile]

/-- A page is the print of its document; a page that cannot be made is empty. -/
theorem answer_compilePage (tool : Script.Shared) (source : String) :
    (compilePage env options render tool source).answer =
      match (outcome (readDocument (options.rules env tool) source) {}).1 with
      | .ok document =>
        (Id.run (printForest (fun text => pure (render text)) document.elements),
          document.scriptSources)
      | .error _ => ("", []) := by
  rw [compilePage, outcome]
  generalize (readDocument (options.rules env tool) source).run.run {} = p
  obtain ⟨_ | document, w⟩ := p
  · rfl
  · rfl

theorem resolve_compilePage (tool : Script.Shared) (source : String) :
    (compilePage env options render tool source).toolchain.resolve env = tool.resolve env := by
  rw [compilePage]
  generalize (readDocument (options.rules env tool) source).run.run {} = p
  have hstarted := Script.Shared.resolve_started tool env
  obtain ⟨_ | document, w⟩ := p
  · dsimp only
    split
    · exact hstarted
    · rfl
  · dsimp only
    split
    · exact hstarted
    · rfl

theorem answer_of_resolve {tool tool' : Script.Shared}
    (h : tool.resolve env = tool'.resolve env) (source : String) :
    (compilePage env options render tool source).answer =
      (compilePage env options render tool' source).answer := by
  rw [answer_compilePage, answer_compilePage, rules_of_resolve env options h]

/-- A document begins with its doctype. -/
theorem exists_elements_of_readDocument {rules : Rules} {source : String} {doc : Document}
    {w w' : Workshop} (h : Returns (readDocument rules source) w doc w') :
    ∃ rest, doc.elements = Element.doctype :: rest := by
  rw [readDocument] at h
  split at h
  next els _ _ =>
    obtain ⟨_, before, page, after, _, _, _, _, rfl, _, _, _, _, _, _, helements, _⟩ :=
      returns_ofForest_iff.mp h
    exact ⟨_, helements.trans (List.append_assoc ..)⟩
  next => exact ((Returns.throw_iff ..).mp h).elim

theorem exists_print_eq (el : Element) :
    ∃ cs, Id.run (el.print fun text => pure (render text)) = '<' :: cs := by
  obtain ⟨tag, attributes, classes, id, text, children, void⟩ := el
  rw [Element.print]
  simp only [Id.run_bind, Id.run_pure, Element.openTag, List.cons_append]
  exact ⟨_, rfl⟩

/-- A forest with an element is not printed as an empty text. -/
theorem printForest_cons_ne (el : Element) (rest : List Element) :
    Id.run (printForest (fun text => pure (render text)) (el :: rest)) ≠ "" := by
  obtain ⟨cs, hcs⟩ := exists_print_eq render el
  simp only [printForest, printLines, Id.run_bind, Id.run_pure, hcs]
  cases Id.run (printLines (fun text => pure (render text)) rest) with
  | nil => simp [Text.joinWith]
  | cons part parts => simp [Text.joinWith]

/-- A page is empty exactly if it cannot be made. -/
theorem html_eq_empty_iff (tool : Script.Shared) (source : String) :
    (compilePage env options render tool source).html = "" ↔
      ∃ cause, (outcome (readDocument (options.rules env tool) source) {}).1 = .error cause := by
  have hanswer := congrArg Prod.fst (answer_compilePage env options render tool source)
  change (compilePage env options render tool source).html = _ at hanswer
  rw [hanswer]
  rcases hout : outcome (readDocument (options.rules env tool) source) {} with ⟨cause | document, w⟩
  · exact iff_of_true rfl ⟨cause, rfl⟩
  · obtain ⟨rest, helements⟩ := exists_elements_of_readDocument hout
    refine iff_of_false ?_ nofun
    dsimp only
    rw [helements]
    exact printForest_cons_ne render Element.doctype rest

theorem answer_eq_empty_iff (tool : Script.Shared) (source : String) :
    (compilePage env options render tool source).answer = ("", []) ↔
      ∃ cause, (outcome (readDocument (options.rules env tool) source) {}).1 = .error cause := by
  constructor
  · intro h
    exact (html_eq_empty_iff env options render tool source).mp (congrArg Prod.fst h)
  · rintro ⟨cause, hcause⟩
    rw [answer_compilePage, hcause]

end compilePage

end Pagewright
