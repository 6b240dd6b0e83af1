import Ambient.Project.Basic
import Ambient.Proofs.Assembly.Like
import Ambient.Proofs.Parser.TwinDecls
import Ambient.Proofs.Parser.TwinStyles

/-!
# The generated text and the line endings of its source

Compiler declarations come with line feeds or with carriage returns before them, as the package was
built. The text that a project writes is the same for both (`Project.textFor?_withReturns`): the two
sources are twins, so that they are read to files that are alike, these are assembled to modules
that are alike, and what is left of the difference between their texts goes when line endings are
normalized.
-/

namespace Ambient

/-- The text that is to be written for a source: that of the module which is assembled from it
under the policy of the configuration, with normal line endings. There is none if the source cannot
be parsed, if the configuration has no policy or if there is no such module. -/
def Project.textFor? (p : Project) (version : Option String) (source : String) : Option String := do
  let file ← (parse source).toOption
  let policy ← p.config.policy.toOption
  let assembled ← (assemble p.config policy version file p.output).outcome.toOption
  pure (Text.LineEnding.normalize assembled.print)

/-- A text with a carriage return before each line feed. -/
def Text.withReturns (s : String) : String :=
  String.ofList (crlf s.toList)

/-- **The line endings of a source have no influence on the text that is written for it.** No source
without carriage returns in which every quoted literal ends on its line can be told apart from the
same source with a carriage return before each line feed: the texts are the same to the byte, or
there is none for both. -/
theorem Project.textFor?_withReturns (p : Project) (version : Option String) {source : String}
    (hr : '\r' ∉ source.toList) (hs : (lex source).StringsOnLines) :
    p.textFor? version (Text.withReturns source) = p.textFor? version source := by
  have tw : Twin SameEndings (lex source) (lex (Text.withReturns source)) := by
    rw [lex, lex, Text.withReturns, String.toList_ofList]
    exact twin_crlf hr hs
  rw [textFor?, textFor?, parse, parse]
  rcases tw.parse with ⟨f, g, hf, hg, hfg⟩ | ⟨c, d, k, -, hc, hd, -⟩
  · rw [hf, hg]
    show Option.bind p.config.policy.toOption _ = Option.bind p.config.policy.toOption _
    refine congrArg (Option.bind p.config.policy.toOption) (funext fun policy => ?_)
    have hassemble := hfg.assemble joins_sameEndings p.config policy version p.output
    show Option.bind (assemble p.config policy version g p.output).outcome.toOption _ =
      Option.bind (assemble p.config policy version f p.output).outcome.toOption _
    generalize (assemble p.config policy version f p.output).outcome = x at hassemble
    generalize (assemble p.config policy version g p.output).outcome = y at hassemble
    cases hassemble with
    | ok h => exact congrArg some (h.print joins_sameEndings).normalize_eq.symm
    | error e => rfl
  · rw [hc, hd]
    rfl

/-- A comment, a block and a template literal over the end of a line. -/
def nodesSource : String :=
  "// nodes\ndeclare namespace ts \x7b\n  interface Node \x7b\x7d\n  type Text = \x60a\n\x60;\n\x7d\n"

/-- What stands in `nodesSource`. -/
def nodesFile : File where
  items :=
    [.decl (.ns ⟨"ts", none,
       [.decl (.interface ⟨"Node", none, [], [], []⟩),
        .decl (.typeAlias ⟨"Text", none, [], .template "\x60a\n\x60"⟩)]⟩)]

theorem Project.textFor?_withReturns_nodes :
    let p : Project := { root := ⟨""⟩, config := { qualify := some [] }, compiler := ⟨""⟩ }
    ∃ text, p.textFor? none nodesSource = some text ∧
      p.textFor? none (Text.withReturns nodesSource) = some text := by
  intro p
  have hparse : parse nodesSource = .ok nodesFile := rfl
  have htext : ∃ text, p.textFor? none nodesSource = some text := by
    rw [Project.textFor?, hparse]
    exact ⟨_, rfl⟩
  have hlines : (lex nodesSource).StringsOnLines := by
    rw [Lexed.stringsOnLines_iff]
    rfl
  obtain ⟨text, htext⟩ := htext
  exact ⟨text, htext, (p.textFor?_withReturns none (by decide) hlines).trans htext⟩

end Ambient
