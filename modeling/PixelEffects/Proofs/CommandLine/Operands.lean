import PixelEffects.CommandLine.Invocation
import PixelEffects.Proofs.Chain.Line

/-!
# Operands of Commands

What is relied on when the words of a command line are read.

The parser of command lines is no part of the program, so only a little is assumed of it: that it reads
a command which is written in the plainest way. There are options for settings in front, each with its
value in the next word, then the name of the command, then its operands, and then parameters, each
behind its option. A word with a dash in front may be an option, so nothing is said about operands like
that. What a parameter means is told to the parser, which refuses the command if a parameter has no
meaning.

How a parameter is read is not assumed. The command line has a function for it, and a chain has another
one; they agree on everything that both can be given.

## Main definitions

* `IsOperand`: What is no option.
* `Settings.words`, `paramWords`: Words with settings and with parameters.
* `ArgumentParser.ReadsOperands`: What is assumed of a parser.
* `IsParam`: A key that is not empty, an equals sign and a value, without blanks.

## Theorems

* `IsParam.readParam_eq`, `paramsOf_eq`: Parameters of a command line are those of a chain.
-/

namespace PixelEffects

namespace CommandLine

/-! ## What a parser reads -/

/-- A word that stands for itself wherever it stands: there is something in it, and no dash in front of
    something else. -/
structure IsOperand (text : String) : Prop where
  nonempty : text ≠ ""
  front : text.toList.head? = some '-' → text = "-"

/-- Settings that can be written in front of a command: a root that is an operand, and a number of
    threads that a machine can have. -/
structure Settings.IsWritable (settings : Settings) : Prop where
  root : ∀ r ∈ settings.root, IsOperand r
  threads : ∀ n ∈ settings.threads, n < UInt64.size

/-- Settings as options, each in front of its value. -/
def Settings.words (settings : Settings) : List String :=
  settings.root.elim [] (["--root", ·]) ++
    settings.threads.elim [] fun n => ["--threads", toString n]

/-- Parameters, each behind its option. -/
def paramWords (params : List String) : List String :=
  params.flatMap fun p => ["-p", p]

/-- A parser that reads settings, operands and parameters as what they are, and refuses a command with a
    parameter that cannot be read. -/
structure ArgumentParser.ReadsOperands (parser : ArgumentParser) : Prop where
  applyEffect : ∀ (read : String → Except String (String × String)) (settings : Settings)
    (image id output : String) (params : List String), settings.IsWritable → IsOperand image →
    IsOperand id → IsOperand output → (∀ p ∈ params, IsOperand p) →
    parser read (settings.words ++ "apply-effect" :: image :: id :: output :: paramWords params) =
      (params.mapM read).toOption.map fun pairs =>
        .invoke ⟨settings, .applyEffect image id output pairs⟩
  applyChain : ∀ (read : String → Except String (String × String)) (settings : Settings)
    (image chain output : String), settings.IsWritable → IsOperand image → IsOperand chain →
    IsOperand output →
    parser read (settings.words ++ ["apply-chain", image, chain, output]) =
      some (.invoke ⟨settings, .applyChain image chain output⟩)

/-! ## Parameters -/

/-- A parameter on the command line and in a chain: it has a key that is not empty, an equals sign and
    a value, and neither a blank nor a dash in front. -/
structure IsParam (text : String) : Prop where
  pair : ∃ key value, text.toList = key ++ '=' :: value ∧ key ≠ [] ∧ '=' ∉ key
  unbroken : ∀ c ∈ text.toList, Text.isBlank c = false
  front : text.toList.head? ≠ some '-'

namespace IsParam

variable {text : String}

theorem isWord (h : IsParam text) : Text.IsWord text.toList := by
  rcases h.pair with ⟨key, value, heq, _⟩
  refine ⟨fun hnil => ?_, h.unbroken⟩
  rw [heq] at hnil
  exact List.cons_ne_nil _ _ (List.append_eq_nil_iff.mp hnil).2

theorem isOperand (h : IsParam text) : IsOperand text := by
  refine ⟨fun hempty => h.isWord.1 ?_, fun hdash => absurd hdash h.front⟩
  rw [hempty]
  rfl

/-- A parameter is read as a chain reads it. -/
theorem readParam_eq (h : IsParam text) : readParam text = .ok (Stage.param text.toList) := by
  rcases h.pair with ⟨key, value, heq, hsome, hfirst⟩
  cases key with
  | nil => exact absurd rfl hsome
  | cons c key =>
      unfold readParam
      rw [heq, param_pair hfirst, Text.splitOnce_append hfirst]

end IsParam

variable {params : List String}

theorem mapM_readParam (h : ∀ p ∈ params, IsParam p) :
    params.mapM readParam = .ok (params.map fun p => Stage.param p.toList) := by
  induction params with
  | nil => rfl
  | cons p params ih =>
      rcases List.forall_mem_cons.mp h with ⟨hp, hothers⟩
      rw [List.mapM_cons, hp.readParam_eq, ih hothers]
      rfl

/-- Parameters by key are those of a chain, also when a key is given again. -/
theorem paramsOf_eq (params : List String) :
    paramsOf (params.map fun p => Stage.param p.toList) =
      Stage.paramsOf (params.map String.toList) := by
  unfold paramsOf Stage.paramsOf
  rw [List.foldl_map, List.foldl_map]

end CommandLine

end PixelEffects
