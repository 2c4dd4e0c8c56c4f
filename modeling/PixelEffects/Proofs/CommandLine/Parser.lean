import PixelEffects.CommandLine.Parser
import PixelEffects.Proofs.CommandLine.Operands
import PixelEffects.Proofs.Number.Digits

/-!
# What the Parser Reads

The parser that the program is run with reads operands as such.

Whether a word is an option does not depend on which options a command knows, so a word that stands for
itself is added to the operands wherever it stands. Options that have their value in the next word take
it away together. In front of a command this goes on until its name, and behind it until the end. What is
left then is to read single values: an operand is a path as it is written, and the digits of a number
that is not too large write this number.

## Theorems

* `Value.threads?_toString`: Numbers of threads.
* `Given.readAll?_operands`: The words behind the name of a command.
* `Given.read?_settings`: The words in front of it.
* `ArgumentParser.standard_readsOperands`: Both together.
-/

namespace PixelEffects

namespace CommandLine

/-! ## Values -/

namespace IsOperand

variable {text : String}

theorem isValue (h : IsOperand text) : Word.isValue text = true := by
  unfold Word.isValue
  split
  · next c cs heq =>
      -- With a dash in front it would be the dash alone.
      have hdash := h.front (by rw [heq]; rfl)
      rw [hdash] at heq
      cases heq
  · rfl

theorem path? (h : IsOperand text) : Value.path? text = some text := by
  unfold Value.path?
  rw [if_neg (by rw [String.isEmpty_iff]; exact h.nonempty)]

end IsOperand

namespace Value

theorem digits?_ofNat {n : Nat} (h : n < UInt64.size) :
    digits? threadLimit (Numeral.ofNat n) = some n := by
  have hdigits : ∀ c ∈ Numeral.ofNat n, c.isDigit = true :=
    fun _ hc => Numeral.isDigit_of_mem_ofNat hc
  have hempty : (Numeral.ofNat n).isEmpty = false := by
    rw [List.isEmpty_eq_false_iff]
    exact Nat.toDigits_ne_nil
  have hshort : (Numeral.significant (Numeral.ofNat n)).length ≤ 20 := by
    by_contra hlong
    have hlarge := Numeral.le_digitsValue_of_long hdigits (Nat.not_le.mp hlong)
    rw [Numeral.digitsValue_ofNat] at hlarge
    exact absurd h (Nat.not_lt.mpr hlarge)
  have hvalue : Numeral.digitsValue (Numeral.significant (Numeral.ofNat n)) = n := by
    rw [Numeral.digitsValue_significant, Numeral.digitsValue_ofNat]
  have hlimit : n < threadLimit := h
  unfold digits?
  simp only [hempty, List.all_eq_true.mpr hdigits, Nat.not_lt.mpr hshort, hvalue, hlimit,
    Bool.not_true, Bool.or_self, decide_false, Bool.false_eq_true, if_false, if_true]

/-- The digits of a number of threads write this number. -/
theorem threads?_toString {n : Nat} (h : n < UInt64.size) : threads? (toString n) = some n := by
  have hchars : (toString n).toList = Numeral.ofNat n := by
    rw [Nat.toString_eq_ofList_toDigits, String.toList_ofList]
    rfl
  unfold threads?
  rw [hchars]
  split
  · next cs heq =>
      have hplus : '+' ∈ Numeral.ofNat n := heq ▸ List.mem_cons_self
      cases Numeral.isDigit_of_mem_ofNat hplus
  · exact digits?_ofNat h

/-- A number is no option. -/
theorem isValue_toString (n : Nat) : Word.isValue (toString n) = true := by
  unfold Word.isValue
  split
  · next c cs heq =>
      rw [Nat.toString_eq_ofList_toDigits, String.toList_ofList] at heq
      have hdash : '-' ∈ Numeral.ofNat n := by
        show '-' ∈ Nat.toDigits 10 n
        rw [heq]
        exact List.mem_cons_self
      cases Numeral.isDigit_of_mem_ofNat hdash
  · rfl

end Value

/-! ## Words behind a command -/

theorem Word.read_of_isValue (known : List OptionName) {word : String}
    (h : isValue word = true) : read known word = .plain word := by
  unfold isValue at h
  unfold read
  -- The words that are no values have a dash and another character in front.
  split at h
  · cases h
  · next hother =>
      split
      · next heq => exact absurd heq (hother '-' [])
      · next heq => exact absurd heq (hother '-' _)
      · next heq => exact absurd heq (hother _ _)
      · rfl

namespace Given

variable {known : List OptionName} {g : Given} {word : String} {params operands : List String}

/-- What words say where none of them is a command. -/
abbrev readAll? (known : List OptionName) (g : Given) (words : List String) : Option Given :=
  read? known (fun _ => false) g words

theorem readAll?_value (h : Word.isValue word = true) (rest : List String) :
    readAll? known g (word :: rest) = readAll? known (g.withPositional [word]) rest := by
  unfold readAll?
  rw [read?, Word.read_of_isValue known h]
  rfl

/-- An option takes the next word away, if that can be its value. -/
theorem read?_option {isCommand : String → Bool} {o : OptionName} {value : String}
    (hknown : Word.read known word = .optionsThenValue [] o) (hvalue : Word.isValue value = true)
    (rest : List String) :
    read? known isCommand g (word :: value :: rest) =
      read? known isCommand (g.withOptions [(o, value)]) rest := by
  rw [read?, hknown]
  exact if_pos hvalue

/-- Parameters behind their option, where it is known. -/
theorem readAll?_paramWords (hknown : Word.read known "-p" = .optionsThenValue [] .param)
    (hparams : ∀ p ∈ params, Word.isValue p = true) (g : Given) :
    readAll? known g (paramWords params) =
      some (g.withOptions (params.map fun p => (.param, p))) := by
  induction params generalizing g with
  | nil =>
      show some g = some ⟨g.options ++ [], g.positional, g.command⟩
      rw [List.append_nil]
  | cons p params ih =>
      rcases List.forall_mem_cons.mp hparams with ⟨hp, hothers⟩
      have hfirst : readAll? known g (paramWords (p :: params)) =
          readAll? known (g.withOptions [(.param, p)]) (paramWords params) :=
        read?_option hknown hp (paramWords params)
      rw [hfirst, ih hothers]
      simp only [withOptions, List.map_cons, List.append_assoc, List.singleton_append]

/-- Operands, one after the other. -/
theorem readAll?_operands (hoperands : ∀ o ∈ operands, Word.isValue o = true)
    (rest : List String) :
    readAll? known g (operands ++ rest) = readAll? known (g.withPositional operands) rest := by
  induction operands generalizing g with
  | nil =>
      show _ = readAll? known ⟨g.options, g.positional ++ [], g.command⟩ rest
      rw [List.append_nil]
      rfl
  | cons o operands ih =>
      rcases List.forall_mem_cons.mp hoperands with ⟨ho, hothers⟩
      rw [List.cons_append, readAll?_value ho, ih hothers]
      simp only [withPositional, List.append_assoc, List.singleton_append]

end Given

/-- Options that are all parameters say nothing about settings. -/
theorem Invocation.parse?_of_readAll {read : String → Except String (String × String)}
    {outer : Settings} {name : CommandName} {words operands : List String} (params : List String)
    (h : Given.readAll? (CommandName.shared ++ name.options) .empty words =
      some ⟨params.map fun p => (.param, p), operands, none⟩) :
    Invocation.parse? read outer name words =
      (Command.ofGiven? read name ⟨params.map fun p => (.param, p), operands, none⟩).map
        (⟨outer, ·⟩) := by
  have harity : Given.isWithinArity ⟨params.map fun p => (.param, p), operands, none⟩ = true := by
    refine List.all_eq_true.mpr fun f hf => ?_
    rcases List.mem_map.mp hf with ⟨p, _, rfl⟩
    rfl
  have hnone : ∀ o : OptionName, o ≠ .param →
      Given.value? ⟨params.map fun p => (.param, p), operands, none⟩ o = none := by
    intro o ho
    unfold Given.value? Given.values
    rw [List.filter_eq_nil_iff.mpr]
    · rfl
    · intro f hf
      rcases List.mem_map.mp hf with ⟨p, _, rfl⟩
      exact fun heq => ho (beq_iff_eq.mp heq).symm
  have hsettings : Settings.ofGiven? ⟨params.map fun p => (.param, p), operands, none⟩ =
      some ⟨none, none⟩ := by
    unfold Settings.ofGiven?
    rw [hnone .root (by decide), hnone .threads (by decide)]
    rfl
  have houter : outer.override ⟨none, none⟩ = outer := rfl
  unfold Invocation.parse?
  unfold Given.readAll? at h
  rw [h]
  simp only [Option.bind_eq_bind, Option.bind_some, harity, if_true, hsettings, houter]
  cases Command.ofGiven? read name _ <;> rfl

namespace Invocation

variable {outer : Settings} {image id chain output : String} {params : List String}

theorem parse?_applyEffect (read : String → Except String (String × String))
    (himage : IsOperand image) (hid : IsOperand id) (houtput : IsOperand output)
    (hparams : ∀ p ∈ params, IsOperand p) :
    Invocation.parse? read outer .applyEffect (image :: id :: output :: paramWords params) =
      (params.mapM read).toOption.map fun pairs =>
        ⟨outer, .applyEffect image id output pairs⟩ := by
  have hoperands : ∀ o ∈ [image, id, output], Word.isValue o = true := by
    simp [himage.isValue, hid.isValue, houtput.isValue]
  have hread : Given.readAll? (CommandName.shared ++ CommandName.applyEffect.options) .empty
      ([image, id, output] ++ paramWords params) =
        some ⟨params.map fun p => (.param, p), [image, id, output], none⟩ := by
    rw [Given.readAll?_operands hoperands,
      Given.readAll?_paramWords rfl fun p hp => (hparams p hp).isValue]
    rfl
  have hvalues : Given.values ⟨params.map fun p => (.param, p), [image, id, output], none⟩
      .param = params := by
    unfold Given.values
    rw [List.filter_eq_self.mpr, List.map_map]
    · exact List.map_id params
    · intro f hf
      rcases List.mem_map.mp hf with ⟨p, _, rfl⟩
      rfl
  refine (parse?_of_readAll params hread).trans ?_
  simp only [Command.ofGiven?, himage.path?, houtput.path?, hvalues, Command.paramsOf?]
  cases params.mapM read <;> rfl

theorem parse?_applyChain (read : String → Except String (String × String))
    (himage : IsOperand image) (hchain : IsOperand chain) (houtput : IsOperand output) :
    Invocation.parse? read outer .applyChain [image, chain, output] =
      some ⟨outer, .applyChain image chain output⟩ := by
  have hoperands : ∀ o ∈ [image, chain, output], Word.isValue o = true := by
    simp [himage.isValue, hchain.isValue, houtput.isValue]
  have hread : Given.readAll? (CommandName.shared ++ CommandName.applyChain.options) .empty
      ([image, chain, output] ++ []) = some ⟨[], [image, chain, output], none⟩ := by
    rw [Given.readAll?_operands hoperands]
    rfl
  refine (parse?_of_readAll [] hread).trans ?_
  simp only [Command.ofGiven?, himage.path?, hchain.path?, houtput.path?]
  rfl

end Invocation

/-! ## Words in front of a command -/

/-- Settings as options with their values. -/
def Settings.occurrences (settings : Settings) : Occurrences :=
  settings.root.toList.map (.root, ·) ++ settings.threads.toList.map fun n => (.threads, toString n)

variable {settings : Settings} {text : String} {name : CommandName}

/-- Settings in front of a command are read up to its name. -/
theorem Given.read?_settings (hsettings : settings.IsWritable)
    (hname : CommandName.ofText? text = some name) (hvalue : Word.isValue text = true)
    (rest : List String) :
    Given.read? CommandName.leading (fun text => (CommandName.ofText? text).isSome) .empty
        (settings.words ++ text :: rest) =
      some ⟨settings.occurrences, [], some (text, rest)⟩ := by
  have hroot : Word.read CommandName.leading "--root" = .optionsThenValue [] .root := by decide
  have hthreads : Word.read CommandName.leading "--threads" = .optionsThenValue [] .threads := by
    decide
  have hcommand (g : Given) : Given.read? CommandName.leading
      (fun text => (CommandName.ofText? text).isSome) g (text :: rest) =
        some { g with command := some (text, rest) } := by
    rw [Given.read?, Word.read_of_isValue CommandName.leading hvalue]
    dsimp only
    rw [hname, Option.isSome_some, if_pos rfl]
  rcases settings with ⟨_ | r, _ | n⟩
  · exact hcommand .empty
  · exact (Given.read?_option hthreads (Value.isValue_toString n) _).trans (hcommand _)
  · exact (Given.read?_option hroot (hsettings.root r rfl).isValue _).trans (hcommand _)
  · exact (Given.read?_option hroot (hsettings.root r rfl).isValue _).trans
      ((Given.read?_option hthreads (Value.isValue_toString n) _).trans (hcommand _))

/-- Options that write settings say these settings. -/
theorem Settings.ofGiven?_occurrences (hsettings : settings.IsWritable)
    (command : Option (String × List String)) :
    Settings.ofGiven? ⟨settings.occurrences, [], command⟩ = some settings := by
  rcases settings with ⟨root, threads⟩
  have hroot : Given.value? ⟨Settings.occurrences ⟨root, threads⟩, [], command⟩ .root = root := by
    cases root <;> cases threads <;> rfl
  have hthreads : Given.value? ⟨Settings.occurrences ⟨root, threads⟩, [], command⟩ .threads =
      threads.map toString := by
    cases root <;> cases threads <;> rfl
  have hrootRead : optional Value.path? root = some root := by
    cases root with
    | none => rfl
    | some r => exact congrArg (Option.map some) (hsettings.root r rfl).path?
  have hthreadsRead : optional Value.threads? (threads.map toString) = some threads := by
    cases threads with
    | none => rfl
    | some n => exact congrArg (Option.map some) (Value.threads?_toString (hsettings.threads n rfl))
  unfold Settings.ofGiven?
  rw [hroot, hthreads, hrootRead, hthreadsRead]
  rfl

namespace ArgumentParser

/-- A command with settings in front of it is read as the command, with these settings. -/
theorem standard_settings (read : String → Except String (String × String))
    (hsettings : settings.IsWritable) (hname : CommandName.ofText? text = some name)
    (hvalue : Word.isValue text = true) (rest : List String) :
    standard read (settings.words ++ text :: rest) =
      (Invocation.parse? read settings name rest).map .invoke := by
  have harity : Given.isWithinArity ⟨settings.occurrences, [], some (text, rest)⟩ = true := by
    rcases settings with ⟨root, threads⟩
    cases root <;> cases threads <;> rfl
  have hversion : Given.has ⟨settings.occurrences, [], some (text, rest)⟩ .version = false := by
    rcases settings with ⟨root, threads⟩
    cases root <;> cases threads <;> rfl
  unfold standard
  rw [Given.read?_settings hsettings hname hvalue rest]
  simp only [Option.bind_eq_bind, Option.bind_some, List.isEmpty_nil, harity, hversion,
    Settings.ofGiven?_occurrences hsettings, hname, Bool.true_and, if_true, Bool.false_eq_true,
    if_false, Option.map_eq_bind]
  rfl

/-- The parser reads operands as such. -/
theorem standard_readsOperands : standard.ReadsOperands where
  applyEffect read settings image id output params hsettings himage hid houtput hparams := by
    have hname : CommandName.ofText? "apply-effect" = some .applyEffect := rfl
    rw [standard_settings read hsettings hname rfl,
      Invocation.parse?_applyEffect read himage hid houtput hparams]
    cases params.mapM read <;> rfl
  applyChain read settings image chain output hsettings himage hchain houtput := by
    have hname : CommandName.ofText? "apply-chain" = some .applyChain := rfl
    rw [standard_settings read hsettings hname rfl,
      Invocation.parse?_applyChain read himage hchain houtput]
    rfl

end ArgumentParser

end CommandLine

end PixelEffects
